import Arcon.Nexmark.Data
import Arcon.Lib.StreamJoin
import Arcon.Function
import Arcon.State.Handle

/-!
# NEXMark query 3 (`experiments/src/nexmark/queries/q3.rs`)

Who sells items of category 10 in Oregon? The query joins the auctions with the persons that sell in
them. It is one `FlatMap` with two states under the id of the seller: the person, and the auctions
whose seller is not known yet. The backend is a parameter of the query, as in the source;
`Q3Backend` is what the query uses of it.

The query asks for the id of the auction. In the result of an auction that had to wait, `auction_id`
is the id of the person instead: the field is filled with `p.id` where the other branch has
`auction.id`. So the join is stated on the pairs of a person and an auction (`Sale`), and `Sale.row`
is the row that the function makes of one.

* `join`: the query as a join of two streams.
* `Sale.row_eq_asked_iff`: which rows are those that the query asks for.
* **`flatmapFn_runs`**: on a backend that keeps values and lists the function puts out the rows of
  this join.

Out of scope: the metrics around the states, the printing of results, and how `run` sets up the
pipeline.
-/

namespace Arcon.Nexmark

open State Exec

/-- `PersonOrAuctionInner`. -/
inductive PersonOrAuctionInner
  | person (p : Person)
  | auction (a : Auction)
  deriving DecidableEq, Repr

/-- `PersonOrAuction`. -/
structure PersonOrAuction where
  inner : Option PersonOrAuctionInner
  deriving DecidableEq, Repr

/-- `Q3Result`. -/
structure Q3Result where
  sellerName : String
  sellerCity : String
  sellerState : String
  auctionId : U32
  deriving DecidableEq, Repr

/-- `NEXMarkEvent`. -/
structure NEXMarkEvent where
  inner : Option Event
  deriving DecidableEq, Repr

/-- `person_or_auction_filter_map`: persons of other states and bids are dropped. -/
def personOrAuctionFilterMap (event : NEXMarkEvent) : Udf Unit (List PersonOrAuction) :=
  match event.inner with
  | none => throw "called `Option::unwrap()` on a `None` value"
  | some (.person person) => pure (if person.state = "OR" then [⟨some (.person person)⟩] else [])
  | some (.auction auction) => pure [⟨some (.auction auction)⟩]
  | some (.bid _) => pure []

/-! ## The function -/

/-- What the query uses of a state backend. -/
structure Q3Backend (B : Type) where
  valueGet : Handle U32 Unit → B → Result (Option Person)
  valueSet : Handle U32 Unit → Person → B → Result (B × Option Person)
  vecIsEmpty : Handle U32 Unit → B → Result Bool
  vecGet : Handle U32 Unit → B → Result (List Auction)
  vecClear : Handle U32 Unit → B → Result B
  vecAppend : Handle U32 Unit → Auction → B → Result B

/-- `Q3State`, with the backend its handles are used on. -/
structure Q3State (B : Type) where
  backend : B
  person : Handle U32 Unit
  pendingAuctions : Handle U32 Unit

namespace Q3State

variable {B : Type}

/-- `Q3State::new`. -/
def new (backend : B) : Q3State B := ⟨backend, ⟨"person", 0, ()⟩, ⟨"pending_auctions", 0, ()⟩⟩

/-- `set_item_key` on both handles. -/
def setItemKey (key : U32) (s : Q3State B) : Q3State B :=
  { s with
    person := { s.person with itemKey := key }
    pendingAuctions := { s.pendingAuctions with itemKey := key } }

end Q3State

variable {B : Type}

/-- `expect`. -/
def expect {σ α : Type} (msg : String) : Result α → Udf σ α
  | .ok a => pure a
  | .error _ => throw msg

/-- A call that leaves another backend. -/
def modifyBackend {α : Type} (msg : String) (call : B → Result (B × α)) : Udf (Q3State B) α := do
  let s ← get
  let (backend, a) ← expect msg (call s.backend)
  set { s with backend }
  pure a

/-- `flatmap_fn`. -/
def flatmapFn (sb : Q3Backend B) (personOrAuction : PersonOrAuction) :
    Udf (Q3State B) (List Q3Result) :=
  match personOrAuction.inner with
  | none => throw "called `Option::unwrap()` on a `None` value"
  | some (.person p) => do
    modify (Q3State.setItemKey p.id)
    let handles ← get
    let _ ← modifyBackend "Could not update person state" (sb.valueSet handles.person p)
    let s ← get
    let empty ← expect "Could not check if pending auctions are empty"
      (sb.vecIsEmpty s.pendingAuctions s.backend)
    if empty then pure []
    else
      let auctions ← expect "Could not get pending auctions" (sb.vecGet s.pendingAuctions s.backend)
      modifyBackend "Could not clear pending auctions" fun db => do
        let db ← sb.vecClear s.pendingAuctions db
        pure (db, ())
      pure <| auctions.filterMap fun a =>
        if a.category = 10 then some ⟨p.name, p.city, p.state, p.id⟩ else none
  | some (.auction auction) => do
    modify (Q3State.setItemKey auction.seller)
    let s ← get
    let person ← expect "Could not get person state" (sb.valueGet s.person s.backend)
    match person with
    | none =>
      modifyBackend "Could not store the auction" fun db => do
        let db ← sb.vecAppend s.pendingAuctions auction db
        pure (db, ())
      pure []
    | some person =>
      if auction.category = 10 then
        pure [⟨person.name, person.city, person.state, auction.id⟩]
      else pure []

/-! ## The join -/

/-- The row of a stream that an event is. -/
def PersonOrAuctionInner.row : PersonOrAuctionInner → Person ⊕ Auction
  | person p => .inl p
  | auction a => .inr a

/-- A person and an auction that he sells, and whether the auction came before him. -/
structure Sale where
  person : Person
  auction : Auction
  waited : Bool
  deriving DecidableEq, Repr

/-- The query as a join of two streams. -/
def join : StreamJoin U32 Person Auction Sale where
  left := Person.id
  right := Auction.seller
  early p a := if a.category = 10 then some ⟨p, a, true⟩ else none
  late p a := if a.category = 10 then some ⟨p, a, false⟩ else none

/-- The row of a sale: of an auction that has waited it has the person's id. -/
def Sale.row (s : Sale) : Q3Result :=
  ⟨s.person.name, s.person.city, s.person.state, if s.waited then s.person.id else s.auction.id⟩

/-- What the query asks for: `open_auction.id` in any case. -/
def Sale.asked (s : Sale) : Q3Result :=
  ⟨s.person.name, s.person.city, s.person.state, s.auction.id⟩

theorem Sale.row_eq_asked_iff (s : Sale) :
    s.row = s.asked ↔ (s.waited = true → s.person.id = s.auction.id) := by
  obtain ⟨p, a, waited⟩ := s
  cases waited with
  | true => simp [row, asked]
  | false => simp [row, asked]

/-- The rows that a person gives. -/
theorem map_row_early (p : Person) (auctions : List Auction) :
    (auctions.filterMap (join.early p)).map Sale.row = auctions.filterMap fun a =>
      if a.category = 10 then some ⟨p.name, p.city, p.state, p.id⟩ else none := by
  rw [List.map_filterMap]
  congr 1
  funext a
  unfold join
  dsimp only
  split_ifs <;> rfl

/-- The row that an auction gives. -/
theorem map_row_late (p : Person) (a : Auction) :
    (join.late p a).toList.map Sale.row =
      if a.category = 10 then [⟨p.name, p.city, p.state, a.id⟩] else [] := by
  unfold join
  dsimp only
  split_ifs <;> rfl

/-- A backend keeps a value and a list for every key under the ids of the query; `R` says which. A
list can grow as long as its length fits into 64 bits. -/
structure Implements (sb : Q3Backend B) (R : B → StreamJoin.Tables U32 Person Auction → Prop) :
    Prop where
  valueGet : ∀ {db t}, R db t → ∀ k, sb.valueGet ⟨"person", k, ()⟩ db = .ok (t.rows k)
  valueSet : ∀ {db t}, R db t → ∀ k p, ∃ db',
    sb.valueSet ⟨"person", k, ()⟩ p db = .ok (db', t.rows k) ∧
      R db' ⟨Function.update t.rows k (some p), t.waiting⟩
  vecIsEmpty : ∀ {db t}, R db t → ∀ k,
    sb.vecIsEmpty ⟨"pending_auctions", k, ()⟩ db = .ok (t.waiting k).isEmpty
  vecGet : ∀ {db t}, R db t → ∀ k, sb.vecGet ⟨"pending_auctions", k, ()⟩ db = .ok (t.waiting k)
  vecClear : ∀ {db t}, R db t → ∀ k, ∃ db',
    sb.vecClear ⟨"pending_auctions", k, ()⟩ db = .ok db' ∧
      R db' ⟨t.rows, Function.update t.waiting k []⟩
  vecAppend : ∀ {db t}, R db t → ∀ k a, (t.waiting k).length < u64Max → ∃ db',
    sb.vecAppend ⟨"pending_auctions", k, ()⟩ a db = .ok db' ∧
      R db' ⟨t.rows, Function.update t.waiting k (t.waiting k ++ [a])⟩

/-- The state of the query stands for these tables. -/
structure Stands (R : B → StreamJoin.Tables U32 Person Auction → Prop) (s : Q3State B)
    (t : StreamJoin.Tables U32 Person Auction) : Prop where
  backend : R s.backend t
  person : s.person.id = "person"
  pendingAuctions : s.pendingAuctions.id = "pending_auctions"

theorem expect_ok {σ α : Type} {msg : String} {x : Result α} {a : α} (h : x = .ok a) (s : σ) :
    expect msg x s = .ok a s := by
  subst h
  rfl

theorem modifyBackend_ok {α : Type} {msg : String} {call : B → Result (B × α)} {s : Q3State B}
    {db : B} {a : α} (h : call s.backend = .ok (db, a)) :
    modifyBackend msg call s = .ok a { s with backend := db } := by
  unfold modifyBackend
  rw [get_bind]
  exact bind_ok (expect_ok h s)

variable {sb : Q3Backend B} {R : B → StreamJoin.Tables U32 Person Auction → Prop}
  {s : Q3State B} {t : StreamJoin.Tables U32 Person Auction}

/-- The state with both handles at a key. -/
def Q3State.keyed (db : B) (key : U32) : Q3State B :=
  ⟨db, ⟨"person", key, ()⟩, ⟨"pending_auctions", key, ()⟩⟩

theorem Stands.setItemKey (hs : Stands R s t) (key : U32) :
    s.setItemKey key = .keyed s.backend key := by
  obtain ⟨db, ⟨id₁, key₁, _⟩, ⟨id₂, key₂, _⟩⟩ := s
  obtain ⟨-, rfl, rfl⟩ := hs
  rfl

theorem stands_keyed {db : B} (hdb : R db t) (key : U32) : Stands R (.keyed db key) t :=
  ⟨hdb, rfl, rfl⟩

/-- A person comes. -/
theorem flatmapFn_person (himpl : Implements sb R) (hs : Stands R s t) (p : Person) :
    ∃ s', flatmapFn sb ⟨some (.person p)⟩ s = .ok ((join.emit t (.inl p)).map Sale.row) s' ∧
      Stands R s' (join.next t (.inl p)) := by
  obtain ⟨db₁, hset, hdb₁⟩ := himpl.valueSet hs.backend p.id p
  obtain ⟨db₂, hclear, hdb₂⟩ := himpl.vecClear hdb₁ p.id
  have hempty := himpl.vecIsEmpty hdb₁ p.id
  have hget := himpl.vecGet hdb₁ p.id
  have hwrite : modifyBackend "Could not update person state" (sb.valueSet ⟨"person", p.id, ()⟩ p)
      (.keyed s.backend p.id) = .ok (t.rows p.id) (.keyed db₁ p.id) := modifyBackend_ok hset
  unfold flatmapFn
  dsimp only
  rw [modify_bind, get_bind, hs.setItemKey]
  by_cases hnil : t.waiting p.id = []
  · refine ⟨.keyed db₁ p.id, ?_, stands_keyed ?_ p.id⟩
    · refine (bind_ok hwrite).trans ((bind_ok (expect_ok hempty _)).trans ?_)
      rw [StreamJoin.emit, show t.waiting (join.left p) = [] from hnil, hnil]
      rfl
    · rw [StreamJoin.next, show join.left p = p.id from rfl, ← hnil, Function.update_eq_self]
      exact hdb₁
  · have hclear : modifyBackend "Could not clear pending auctions" (fun db => do
        let db ← sb.vecClear ⟨"pending_auctions", p.id, ()⟩ db
        pure (db, ())) (.keyed db₁ p.id) = .ok () (.keyed db₂ p.id) :=
      modifyBackend_ok (by
        show (sb.vecClear ⟨"pending_auctions", p.id, ()⟩ db₁ >>= _) = _
        rw [hclear]
        rfl)
    refine ⟨.keyed db₂ p.id, ?_, stands_keyed hdb₂ p.id⟩
    refine (bind_ok hwrite).trans ((bind_ok (expect_ok hempty _)).trans ?_)
    rw [if_neg (by simpa using hnil), StreamJoin.emit, map_row_early]
    exact (bind_ok (expect_ok hget _)).trans (bind_ok hclear)

/-- An auction comes. -/
theorem flatmapFn_auction (himpl : Implements sb R) (hs : Stands R s t) (a : Auction)
    (hfits : (t.waiting a.seller).length < u64Max) :
    ∃ s', flatmapFn sb ⟨some (.auction a)⟩ s = .ok ((join.emit t (.inr a)).map Sale.row) s' ∧
      Stands R s' (join.next t (.inr a)) := by
  have hget := himpl.valueGet hs.backend a.seller
  unfold flatmapFn
  dsimp only
  rw [modify_bind, get_bind, hs.setItemKey, StreamJoin.emit, StreamJoin.next]
  rw [show join.right a = a.seller from rfl]
  cases hrow : t.rows a.seller with
  | none =>
    obtain ⟨db₁, happend, hdb₁⟩ := himpl.vecAppend hs.backend a.seller a hfits
    have hstore : modifyBackend "Could not store the auction" (fun db => do
        let db ← sb.vecAppend ⟨"pending_auctions", a.seller, ()⟩ a db
        pure (db, ())) (.keyed s.backend a.seller) = .ok () (.keyed db₁ a.seller) :=
      modifyBackend_ok (by
        show (sb.vecAppend ⟨"pending_auctions", a.seller, ()⟩ a s.backend >>= _) = _
        rw [happend]
        rfl)
    rw [hrow] at hget
    refine ⟨.keyed db₁ a.seller, ?_, stands_keyed hdb₁ a.seller⟩
    exact (bind_ok (expect_ok hget _)).trans (bind_ok hstore)
  | some p =>
    rw [hrow] at hget
    refine ⟨.keyed s.backend a.seller, (bind_ok (expect_ok hget _)).trans ?_,
      stands_keyed hs.backend a.seller⟩
    show (if a.category = 10 then _ else _ : Udf _ _) _ =
      .ok ((join.late p a).toList.map Sale.row) _
    rw [map_row_late]
    split_ifs <;> rfl

/-! ## Runs -/

/-- An event as it comes to the query. -/
def asInput (e : ArconElement PersonOrAuctionInner) : ArconElement PersonOrAuction :=
  ⟨⟨some e.data⟩, e.timestamp⟩

/-- **On a backend that keeps values and lists** the function puts out the rows of the join. -/
theorem flatmapFn_runs (himpl : Implements sb R) (hs : Stands R s t)
    (es : List (ArconElement PersonOrAuctionInner))
    (hlen : ∀ k, (t.waiting k).length + es.length ≤ u64Max) :
    ∃ outs s', transduce (flatmapFn sb) (es.map asInput) s = .ok outs s' ∧
      outs.map (·.data) = (join.results t (es.map (·.data.row))).map Sale.row := by
  induction es generalizing s t with
  | nil => exact ⟨[], s, rfl, rfl⟩
  | cons e es ih =>
    have hstep : ∃ s', flatmapFn sb ⟨some e.data⟩ s =
        .ok ((join.emit t e.data.row).map Sale.row) s' ∧ Stands R s' (join.next t e.data.row) := by
      cases e.data with
      | person p => exact flatmapFn_person himpl hs p
      | auction a =>
        refine flatmapFn_auction himpl hs a ?_
        have hk := hlen a.seller
        rw [List.length_cons] at hk
        omega
    obtain ⟨s₁, hfn, hs₁⟩ := hstep
    obtain ⟨outs, s', htrans, hdata⟩ := ih hs₁ fun k => by
      have hnext := join.length_waiting_next t e.data.row k
      have hk := hlen k
      rw [List.length_cons] at hk
      omega
    refine ⟨_, s', (bind_ok hfn).trans (bind_ok htrans), ?_⟩
    rw [List.map_append, hdata, List.map_map, List.map_cons, StreamJoin.results, List.map_append]
    exact congrArg (· ++ _) (List.map_id _)

end Arcon.Nexmark

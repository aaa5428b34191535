import Arcon.State.Serialization
import Arcon.Lib.Message

/-!
# The events of NEXMark (`experiments/src/nexmark/mod.rs`)

An auction site: persons register, offer items and bid on the items of others. The three kinds of
events are `prost` messages, with the tags below; a state keeps them in this form.
-/

namespace Arcon.State

open Bytes

/-- A type with a schema is a `prost::Message`. -/
abbrev Message.ofSchema {T : Type} (schema : Schema T) : Message T where
  encodeLengthDelimited := schema.encode
  decodeLengthDelimited bs := (schema.decode bs).toOption

theorem LawfulMessage.ofSchema {T : Type} (schema : Schema T) :
    @LawfulMessage T (Message.ofSchema schema) :=
  @LawfulMessage.mk T (Message.ofSchema schema)
    (fun a rest => congrArg Except.toOption (schema.decode_encode a rest)) schema.encode_ne_nil

end Arcon.State

namespace Arcon.Nexmark

open Bytes State

/-- `u32`. -/
abbrev U32 := Prim 4

/-! ## Persons -/

/-- `Person`. -/
structure Person where
  id : U32
  name : String
  emailAddress : String
  creditCard : String
  city : String
  state : String
  date : U32
  deriving DecidableEq, Repr

namespace Person

/-- The fields that are written. -/
def fields (p : Person) : List WireField :=
  Field.number 1 p.id ++ Field.text 2 p.name ++ Field.text 3 p.emailAddress ++
    Field.text 4 p.creditCard ++ Field.text 5 p.city ++ Field.text 6 p.state ++
    Field.number 7 p.date

/-- One field that is read. -/
def merge (p : Person) (f : WireField) : Except String Person :=
  match f.num with
  | 1 => do return { p with id := ← Field.readNumber _ f.value }
  | 2 => do return { p with name := ← Field.readText f.value }
  | 3 => do return { p with emailAddress := ← Field.readText f.value }
  | 4 => do return { p with creditCard := ← Field.readText f.value }
  | 5 => do return { p with city := ← Field.readText f.value }
  | 6 => do return { p with state := ← Field.readText f.value }
  | 7 => do return { p with date := ← Field.readNumber _ f.value }
  | _ => .ok p

/-- The messages of persons. -/
def schema : Schema Person where
  default := ⟨0, "", "", "", "", "", 0⟩
  fields := fields
  merge := merge
  merges p := by
    obtain ⟨id, name, emailAddress, creditCard, city, state, date⟩ := p
    refine Field.merge_append (Field.merge_append (Field.merge_append (Field.merge_append
      (Field.merge_append (Field.merge_append
        (Field.merge_number (f := (⟨·, "", "", "", "", "", 0⟩)) rfl rfl)
        (Field.merge_text (f := (⟨id, ·, "", "", "", "", 0⟩)) rfl rfl))
        (Field.merge_text (f := (⟨id, name, ·, "", "", "", 0⟩)) rfl rfl))
        (Field.merge_text (f := (⟨id, name, emailAddress, ·, "", "", 0⟩)) rfl rfl))
        (Field.merge_text (f := (⟨id, name, emailAddress, creditCard, ·, "", 0⟩)) rfl rfl))
        (Field.merge_text (f := (⟨id, name, emailAddress, creditCard, city, ·, 0⟩)) rfl rfl))
      (Field.merge_number (f := Person.mk id name emailAddress creditCard city state) rfl rfl)

instance : Message Person := .ofSchema schema

instance : LawfulMessage Person := .ofSchema schema

end Person

/-! ## Auctions -/

/-- `Auction`. -/
structure Auction where
  id : U32
  itemName : String
  description : String
  initialBid : U32
  reserve : U32
  date : U32
  expires : U32
  seller : U32
  category : U32
  deriving DecidableEq, Repr

namespace Auction

/-- The fields that are written. -/
def fields (a : Auction) : List WireField :=
  Field.number 1 a.id ++ Field.text 2 a.itemName ++ Field.text 3 a.description ++
    Field.number 4 a.initialBid ++ Field.number 5 a.reserve ++ Field.number 6 a.date ++
    Field.number 7 a.expires ++ Field.number 8 a.seller ++ Field.number 9 a.category

/-- One field that is read. -/
def merge (a : Auction) (f : WireField) : Except String Auction :=
  match f.num with
  | 1 => do return { a with id := ← Field.readNumber _ f.value }
  | 2 => do return { a with itemName := ← Field.readText f.value }
  | 3 => do return { a with description := ← Field.readText f.value }
  | 4 => do return { a with initialBid := ← Field.readNumber _ f.value }
  | 5 => do return { a with reserve := ← Field.readNumber _ f.value }
  | 6 => do return { a with date := ← Field.readNumber _ f.value }
  | 7 => do return { a with expires := ← Field.readNumber _ f.value }
  | 8 => do return { a with seller := ← Field.readNumber _ f.value }
  | 9 => do return { a with category := ← Field.readNumber _ f.value }
  | _ => .ok a

/-- The messages of auctions. -/
def schema : Schema Auction where
  default := ⟨0, "", "", 0, 0, 0, 0, 0, 0⟩
  fields := fields
  merge := merge
  merges a := by
    obtain ⟨id, item, desc, bid, reserve, date, expires, seller, category⟩ := a
    refine Field.merge_append (Field.merge_append (Field.merge_append (Field.merge_append
      (Field.merge_append (Field.merge_append (Field.merge_append (Field.merge_append
        (Field.merge_number (f := (⟨·, "", "", 0, 0, 0, 0, 0, 0⟩)) rfl rfl)
        (Field.merge_text (f := (⟨id, ·, "", 0, 0, 0, 0, 0, 0⟩)) rfl rfl))
        (Field.merge_text (f := (⟨id, item, ·, 0, 0, 0, 0, 0, 0⟩)) rfl rfl))
        (Field.merge_number (f := (⟨id, item, desc, ·, 0, 0, 0, 0, 0⟩)) rfl rfl))
        (Field.merge_number (f := (⟨id, item, desc, bid, ·, 0, 0, 0, 0⟩)) rfl rfl))
        (Field.merge_number (f := (⟨id, item, desc, bid, reserve, ·, 0, 0, 0⟩)) rfl rfl))
        (Field.merge_number (f := (⟨id, item, desc, bid, reserve, date, ·, 0, 0⟩)) rfl rfl))
        (Field.merge_number (f := (⟨id, item, desc, bid, reserve, date, expires, ·, 0⟩)) rfl rfl))
      (Field.merge_number (f := Auction.mk id item desc bid reserve date expires seller) rfl rfl)

instance : Message Auction := .ofSchema schema

instance : LawfulMessage Auction := .ofSchema schema

end Auction

/-! ## Events -/

/-- `Bid`. -/
structure Bid where
  auction : U32
  bidder : U32
  price : U32
  date : U32
  deriving DecidableEq, Repr

/-- `Event`, the contents of a `NEXMarkEvent`. -/
inductive Event
  | person (p : Person)
  | auction (a : Auction)
  | bid (b : Bid)
  deriving DecidableEq, Repr

end Arcon.Nexmark

import KeyedRender.Payload.Basic

/-!
# Visual elements

A visual element has a number and a name, and is logged together with an optional payload. All
three records can be read from a payload: an object by its member names, where unknown members
are ignored, or a list of exactly the fields in order.
-/
namespace KeyedRender

structure VisualElement where
  id : Int
  name : String

structure VisualElementData where
  element : VisualElement
  data : Option Payload

structure ElementMetadata where
  id : Int
  data : Option Payload
  logOnly : Bool

namespace Payload

/-- The values of the named fields, none for a missing member. -/
def fields? (names : List String) (p : Payload) : Option (List (Option Payload)) :=
  match p.members?, p.items? with
  | some members, _ => some (names.map fun name => member? name members)
  | none, some items => if items.length = names.length then some (items.map some) else none
  | none, none => none

/-- A missing or empty field holds nothing. -/
def optional (field : Option Payload) : Option Payload := field.filter fun p => !p.isNull

def toId? : Payload → Option Int
  | ⟨.int n, _⟩ => if -0x8000000000000000 ≤ n ∧ n < 0x8000000000000000 then some n else none
  | _ => none

end Payload

open Payload (fields? optional toId?)

namespace VisualElement

def ofPayload? (p : Payload) : Option VisualElement :=
  match fields? ["id", "name"] p with
  | some [some id, some ⟨.text name, _⟩] => (toId? id).map fun n => ⟨n, name⟩
  | _ => none

end VisualElement

namespace VisualElementData

def ofPayload? (p : Payload) : Option VisualElementData :=
  match fields? ["ve", "data"] p with
  | some [some element, data] => (VisualElement.ofPayload? element).map fun e => ⟨e, optional data⟩
  | _ => none

def toPayload (v : VisualElementData) : Payload :=
  .ofMembers [
    ("ve", .ofMembers [("id", .int v.element.id), ("name", .text v.element.name)]),
    ("data", v.data.getD .null)]

end VisualElementData

namespace ElementMetadata

def ofElement (v : VisualElementData) (logOnly : Bool) : ElementMetadata :=
  ⟨v.element.id, v.data, logOnly⟩

def ofPayload? (p : Payload) : Option ElementMetadata :=
  match fields? ["id", "data", "log_only"] p with
  | some [some id, data, some ⟨.bool logOnly, _⟩] =>
    (toId? id).map fun n => ⟨n, optional data, logOnly⟩
  | _ => none

end ElementMetadata

end KeyedRender

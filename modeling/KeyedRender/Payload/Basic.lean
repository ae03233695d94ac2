import KeyedRender.Binary64

/-!
# Payloads

Structured data as it is handed to templates and loggers: nothing, truth values, whole numbers,
finite floating point numbers, text, lists, and objects. The members of an object are sorted by
name, no name twice, whatever a payload is built from.
-/
namespace KeyedRender

inductive Json
  | null
  | bool (value : Bool)
  | int (value : Int)
  | float (negative : Bool) (position : Binary64.Position)
  | text (value : String)
  | list (items : List Json)
  | object (members : List (String × Json))

namespace Json

/-- The members of all objects are in the order of their names. -/
inductive Ordered : Json → Prop
  | null : Ordered null
  | bool (value : Bool) : Ordered (bool value)
  | int (n : Int) : Ordered (int n)
  | float (negative : Bool) (position : Binary64.Position) : Ordered (float negative position)
  | text (s : String) : Ordered (text s)
  | list {items : List Json} (parts : ∀ x ∈ items, Ordered x) : Ordered (list items)
  | object {members : List (String × Json)} (names : members.Pairwise (·.1 < ·.1))
      (parts : ∀ m ∈ members, Ordered m.2) : Ordered (object members)

theorem Ordered.item {items : List Json} (h : (Json.list items).Ordered) {x : Json} (hx : x ∈ items) :
    x.Ordered := by
  cases h with
  | list parts => exact parts x hx

theorem Ordered.member {members : List (String × Json)} (h : (Json.object members).Ordered)
    {m : String × Json} (hm : m ∈ members) : m.2.Ordered := by
  cases h with
  | object _ parts => exact parts m hm

/-- A member put in its place by name; it replaces one of the same name. -/
def insertMember (name : String) (value : Json) : List (String × Json) → List (String × Json)
  | [] => [(name, value)]
  | (other, existing) :: rest =>
    if name < other then (name, value) :: (other, existing) :: rest
    else if name = other then (name, value) :: rest
    else (other, existing) :: insertMember name value rest

section Inserting

variable {name : String} {value : Json} {members : List (String × Json)}

theorem mem_insertMember {m : String × Json} (h : m ∈ insertMember name value members) :
    m = (name, value) ∨ m ∈ members := by
  induction members with
  | nil => simpa [insertMember] using h
  | cons other rest ih =>
    unfold insertMember at h
    split at h
    · exact List.mem_cons.1 h
    · split at h
      · exact (List.mem_cons.1 h).imp_right (List.mem_cons_of_mem _)
      · rcases List.mem_cons.1 h with rfl | h
        · exact .inr List.mem_cons_self
        · exact (ih h).imp_right (List.mem_cons_of_mem _)

theorem pairwise_insertMember (h : members.Pairwise (·.1 < ·.1)) :
    (insertMember name value members).Pairwise (·.1 < ·.1) := by
  induction members with
  | nil => simp [insertMember]
  | cons other rest ih =>
    obtain ⟨hother, hrest⟩ := List.pairwise_cons.1 h
    unfold insertMember
    split
    · next hlt =>
      refine List.pairwise_cons.2 ⟨fun m hm => ?_, h⟩
      rcases List.mem_cons.1 hm with rfl | hm
      · exact hlt
      · exact String.lt_trans hlt (hother m hm)
    · next hnlt =>
      split
      · next heq => exact List.pairwise_cons.2 ⟨heq ▸ hother, hrest⟩
      · next hne =>
        refine List.pairwise_cons.2 ⟨fun m hm => ?_, ih hrest⟩
        rcases mem_insertMember hm with rfl | hm
        · exact Std.lt_of_le_of_ne (String.not_lt.1 hnlt) (Ne.symm hne)
        · exact hother m hm

end Inserting

def ofMembers (members : List (String × Json)) : Json :=
  object (members.foldl (fun sorted m => insertMember m.1 m.2 sorted) [])

theorem Ordered.ofMembers {members : List (String × Json)} (h : ∀ m ∈ members, m.2.Ordered) :
    (ofMembers members).Ordered := by
  have hbuilt : ∀ sorted : List (String × Json), sorted.Pairwise (·.1 < ·.1) →
      (∀ m ∈ sorted, m.2.Ordered) →
      (Json.object (members.foldl (fun sorted m => insertMember m.1 m.2 sorted) sorted)).Ordered := by
    induction members with
    | nil => exact fun sorted hnames hparts => .object hnames hparts
    | cons m rest ih =>
      intro sorted hnames hparts
      refine ih (fun m hm => h m (List.mem_cons_of_mem _ hm)) _ (pairwise_insertMember hnames) ?_
      intro n hn
      rcases mem_insertMember hn with rfl | hn
      · exact h m List.mem_cons_self
      · exact hparts n hn
  exact hbuilt [] .nil (by simp)

end Json

@[ext]
structure Payload where
  tree : Json
  ordered : tree.Ordered

namespace Payload

def null : Payload := ⟨.null, .null⟩

def bool (value : Bool) : Payload := ⟨.bool value, .bool value⟩

def int (n : Int) : Payload := ⟨.int n, .int n⟩

def float (negative : Bool) (position : Binary64.Position) : Payload :=
  ⟨.float negative position, .float negative position⟩

def text (value : String) : Payload := ⟨.text value, .text value⟩

def list (items : List Payload) : Payload where
  tree := .list (items.map tree)
  ordered := .list fun x hx => by
    obtain ⟨item, -, rfl⟩ := List.mem_map.1 hx
    exact item.ordered

def ofMembers (members : List (String × Payload)) : Payload where
  tree := .ofMembers (members.map fun m => (m.1, m.2.tree))
  ordered := .ofMembers fun x hx => by
    obtain ⟨member, -, rfl⟩ := List.mem_map.1 hx
    exact member.2.ordered

def items? : Payload → Option (List Payload)
  | ⟨.list items, h⟩ => some (items.attach.map fun x => ⟨x.1, h.item x.2⟩)
  | _ => none

def members? : Payload → Option (List (String × Payload))
  | ⟨.object members, h⟩ => some (members.attach.map fun m => (m.1.1, ⟨m.1.2, h.member m.2⟩))
  | _ => none

def member? (name : String) (members : List (String × Payload)) : Option Payload :=
  (members.find? (·.1 = name)).map (·.2)

def isNull : Payload → Bool
  | ⟨.null, _⟩ => true
  | _ => false

/-- Nothing, false, zero and empty text count as not supplied. -/
def isSupplied : Payload → Bool
  | ⟨.null, _⟩ => false
  | ⟨.bool value, _⟩ => value
  | ⟨.int value, _⟩ => value != 0
  | ⟨.float _ position, _⟩ => position.val != 0
  | ⟨.text value, _⟩ => !value.isEmpty
  | ⟨.list _, _⟩ => true
  | ⟨.object _, _⟩ => true

end Payload

end KeyedRender

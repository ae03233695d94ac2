/-!
# Documents

A document is a growing table of nodes: elements with attributes and children, texts, and
comments. A node keeps its number for good; a removed node leaves an empty place behind. Every
element carries a record for the renderer: skip parameters, an attached component, and the markup
last written into it.
-/
namespace KeyedRender

abbrev NodeId := Nat

abbrev ComponentId := Nat

structure ComponentSlot where
  tag : String
  key : String
  component : ComponentId
deriving DecidableEq

structure NodeRecord where
  skipParameters : Option String
  slot : Option ComponentSlot
  blob : Option String
deriving DecidableEq

def NodeRecord.empty : NodeRecord := ⟨none, none, none⟩

/-- Attributes and properties are kept in the order in which they were first set. -/
structure Element where
  name : String
  key : String
  attributes : List (String × String)
  properties : List (String × String)
  children : List NodeId
  raw : Option String
  record : NodeRecord
deriving DecidableEq

def Element.new (name key : String) : Element := ⟨name, key, [], [], [], none, .empty⟩

inductive Content
  | element (e : Element)
  | text (value : String)
  | comment (value : String)
deriving DecidableEq

structure Node where
  parent : Option NodeId
  content : Content
deriving DecidableEq

/-- Sets the value of a name, in its place if it has one and else at the end. -/
def assign (name value : String) : List (String × String) → List (String × String)
  | [] => [(name, value)]
  | (other, existing) :: rest =>
    if other = name then (other, value) :: rest else (other, existing) :: assign name value rest

theorem assign_of_notMem {name value : String} {l : List (String × String)}
    (h : name ∉ l.map Prod.fst) : assign name value l = l ++ [(name, value)] := by
  induction l with
  | nil => rfl
  | cons a rest ih =>
    obtain ⟨hfirst, hrest⟩ : name ≠ a.1 ∧ name ∉ rest.map Prod.fst := by simpa using h
    simp only [assign, if_neg (Ne.symm hfirst), ih hrest, List.cons_append]

def Element.setAttribute (name value : String) (e : Element) : Element :=
  { e with attributes := assign name value e.attributes }

def Element.setProperty (name value : String) (e : Element) : Element :=
  { e with properties := assign name value e.properties }

def after? (id : NodeId) : List NodeId → Option NodeId
  | [] => none
  | first :: rest => if first = id then rest.head? else after? id rest

structure Document where
  nodes : Array (Option Node)

namespace Document

def single (name : String) : Document :=
  ⟨#[some ⟨none, .element (.new name "")⟩]⟩

def size (d : Document) : Nat := d.nodes.size

def node? (d : Document) (id : NodeId) : Option Node := d.nodes[id]?.join

def content? (d : Document) (id : NodeId) : Option Content := (d.node? id).map Node.content

def element? (d : Document) (id : NodeId) : Option Element :=
  match d.content? id with
  | some (.element e) => some e
  | _ => none

def isLive (d : Document) (id : NodeId) : Bool := (d.node? id).isSome

def parent? (d : Document) (id : NodeId) : Option NodeId := (d.node? id).bind Node.parent

def children (d : Document) (id : NodeId) : List NodeId :=
  ((d.element? id).map Element.children).getD []

def attributes (d : Document) (id : NodeId) : List (String × String) :=
  ((d.element? id).map Element.attributes).getD []

def isComment (d : Document) (id : NodeId) : Bool :=
  match d.content? id with
  | some (.comment _) => true
  | _ => false

def nextSibling? (d : Document) (id : NodeId) : Option NodeId :=
  (d.parent? id).bind fun parent => after? id (d.children parent)

/-- Only elements have a record. -/
def record? (d : Document) (id : NodeId) : Option NodeRecord := (d.element? id).map Element.record

/-- A new node at the end of the table; nobody's child yet. -/
def add (d : Document) (parent : Option NodeId) (content : Content) : NodeId × Document :=
  (d.size, ⟨d.nodes.push (some ⟨parent, content⟩)⟩)

def setContent (d : Document) (id : NodeId) (content : Content) : Document :=
  ⟨d.nodes.modify id (Option.map fun n => { n with content := content })⟩

def updateElement (d : Document) (id : NodeId) (change : Element → Element) : Document :=
  match d.element? id with
  | some e => d.setContent id (.element (change e))
  | none => d

def setChildren (d : Document) (id : NodeId) (children : List NodeId) : Document :=
  d.updateElement id fun e => { e with children := children }

def updateRecord (d : Document) (id : NodeId) (change : NodeRecord → NodeRecord) : Document :=
  d.updateElement id fun e => { e with record := change e.record }

def setComment (d : Document) (id : NodeId) (value : String) : Document :=
  if d.isComment id then d.setContent id (.comment value) else d

def erase (d : Document) (id : NodeId) : Document :=
  ⟨d.nodes.modify id fun _ => none⟩

def dropWithin : Nat → List NodeId → Document → Document
  | 0, _, d => d
  | fuel + 1, ids, d =>
    ids.foldl (fun d id =>
      if d.isLive id then dropWithin fuel (d.children id) (d.erase id) else d) d

/-- Erases nodes with everything below them. Each level erases a node, so the table's size is
fuel enough. -/
def dropAll (d : Document) (ids : List NodeId) : Document :=
  dropWithin (d.size + 1) ids d

def attached (d : Document) : List ComponentId :=
  d.nodes.toList.filterMap fun node? =>
    match node? with
    | some ⟨_, .element e⟩ => e.record.slot.map ComponentSlot.component
    | _ => none

def siblingsWithin (d : Document) : Nat → Option NodeId → List NodeId
  | 0, _ => []
  | _ + 1, none => []
  | fuel + 1, some id => id :: d.siblingsWithin fuel (d.nextSibling? id)

/-- A node and the siblings after it, in order. -/
def siblingsFrom (d : Document) (pointer : Option NodeId) : List NodeId :=
  d.siblingsWithin d.size pointer

def outlineWithin (d : Document) : Nat → Nat → NodeId → List (Nat × NodeId)
  | 0, _, _ => []
  | fuel + 1, depth, id =>
    if d.isLive id then
      (depth, id) :: (d.children id).flatMap (d.outlineWithin fuel (depth + 1))
    else []

def outline (d : Document) (id : NodeId) : List (Nat × NodeId) :=
  d.outlineWithin d.size 0 id

end Document

end KeyedRender

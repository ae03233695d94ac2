import KeyedRender.Proofs.Document.Idle

/-!
# Documents without records

What is recorded of the elements of a document has no part in its shape: every edit does the same
to a document without records.
-/
namespace KeyedRender

def Element.bare (e : Element) : Element := { e with record := .empty }

def Content.bare : Content → Content
  | .element e => .element e.bare
  | .text value => .text value
  | .comment value => .comment value

def Node.bare (n : Node) : Node := { n with content := n.content.bare }

def Document.bare (d : Document) : Document := ⟨d.nodes.map (Option.map Node.bare)⟩

namespace Document

variable (d : Document)

@[simp] theorem size_bare : d.bare.size = d.size := by simp [bare, size]

theorem node?_bare (id : NodeId) : d.bare.node? id = (d.node? id).map Node.bare := by
  simp only [node?, bare, Array.getElem?_map]
  cases d.nodes[id]? <;> rfl

theorem content?_bare (id : NodeId) : d.bare.content? id = (d.content? id).map Content.bare := by
  simp only [content?, node?_bare, Option.map_map]
  rfl

theorem element?_bare (id : NodeId) : d.bare.element? id = (d.element? id).map Element.bare := by
  simp only [element?, content?_bare]
  cases d.content? id with
  | none => rfl
  | some c => cases c <;> rfl

@[simp] theorem isLive_bare (id : NodeId) : d.bare.isLive id = d.isLive id := by
  simp [isLive, node?_bare]

@[simp] theorem children_bare (id : NodeId) : d.bare.children id = d.children id := by
  simp only [children, element?_bare]
  cases d.element? id <;> rfl

@[simp] theorem isComment_bare (id : NodeId) : d.bare.isComment id = d.isComment id := by
  simp only [isComment, content?_bare]
  cases d.content? id with
  | none => rfl
  | some c => cases c <;> rfl

theorem bare_add (parent : Option NodeId) (content : Content) :
    (d.add parent content).2.bare = (d.bare.add parent content.bare).2 := by
  refine ext_node? (by simp) fun id => ?_
  simp only [node?_bare, node?_add, size_bare]
  split <;> rfl

theorem bare_setContent (id : NodeId) (content : Content) :
    (d.setContent id content).bare = d.bare.setContent id content.bare := by
  refine ext_node? (by simp) fun other => ?_
  simp only [node?_bare, node?_setContent]
  split
  · cases d.node? id <;> rfl
  · rfl

theorem bare_updateElement {change change' : Element → Element}
    (h : ∀ e, (change e).bare = change' e.bare) (id : NodeId) :
    (d.updateElement id change).bare = d.bare.updateElement id change' := by
  simp only [updateElement, element?_bare]
  cases d.element? id with
  | none => rfl
  | some e => exact (bare_setContent ..).trans (congrArg _ (congrArg Content.element (h e)))

theorem bare_setChildren (id : NodeId) (l : List NodeId) :
    (d.setChildren id l).bare = d.bare.setChildren id l := by
  have hsame : ∀ e : Element, Element.bare { e with children := l } =
      { e.bare with children := l } := fun _ => rfl
  exact d.bare_updateElement hsame id

theorem bare_updateRecord (id : NodeId) (change : NodeRecord → NodeRecord) :
    (d.updateRecord id change).bare = d.bare := by
  cases he : d.element? id with
  | none => simp only [updateRecord, updateElement, he]
  | some e =>
    simp only [updateRecord, updateElement, he, bare_setContent]
    exact setContent_eq_self (by rw [content?_bare, element?_eq_some_iff.1 he]; rfl)

theorem bare_setComment (id : NodeId) (value : String) :
    (d.setComment id value).bare = d.bare.setComment id value := by
  simp only [setComment, isComment_bare]
  split
  · exact bare_setContent ..
  · rfl

theorem bare_erase (id : NodeId) : (d.erase id).bare = d.bare.erase id := by
  refine ext_node? (by simp) fun other => ?_
  simp only [node?_bare, node?_erase]
  split <;> rfl

theorem bare_dropWithin (fuel : Nat) (ids : List NodeId) :
    (dropWithin fuel ids d).bare = dropWithin fuel ids d.bare := by
  induction fuel generalizing ids d with
  | zero => rfl
  | succ fuel ih =>
    induction ids generalizing d with
    | nil => rfl
    | cons id rest ihs =>
      simp only [dropWithin, List.foldl_cons] at ihs ⊢
      rw [ihs]
      congr 1
      simp only [isLive_bare, children_bare]
      split
      · rw [ih, bare_erase]
      · rfl

theorem bare_dropAll (ids : List NodeId) : (d.dropAll ids).bare = d.bare.dropAll ids := by
  rw [dropAll, bare_dropWithin, dropAll, size_bare]

end Document

end KeyedRender

import KeyedRender.Proofs.Document.Idle

/-!
# Documents without what one target alone keeps

Keys and properties are kept by the keyed target only, and each target has a name of its own for
the container. Without them the documents of both targets can be equal, and what a renderer reads
of a document is the same.
-/
namespace KeyedRender

def Element.plain (named : Bool) (e : Element) : Element :=
  { e with name := if named then e.name else "", key := "", properties := [] }

def Content.plain (named : Bool) : Content → Content
  | .element e => .element (e.plain named)
  | .text value => .text value
  | .comment value => .comment value

def Node.plain (named : Bool) (n : Node) : Node := { n with content := n.content.plain named }

/-- A document without keys, properties, and the name of the container. -/
def Document.plain (d : Document) : Document :=
  ⟨d.nodes.mapIdx fun id node? => node?.map (Node.plain (id != 0))⟩

namespace Document

variable (d : Document)

@[simp] theorem size_plain : d.plain.size = d.size := by simp [plain, size]

theorem node?_plain (id : NodeId) : d.plain.node? id = (d.node? id).map (Node.plain (id != 0)) := by
  simp only [node?, plain, Array.getElem?_mapIdx]
  cases d.nodes[id]? <;> rfl

theorem content?_plain (id : NodeId) :
    d.plain.content? id = (d.content? id).map (Content.plain (id != 0)) := by
  simp only [content?, node?_plain, Option.map_map]
  rfl

theorem element?_plain (id : NodeId) :
    d.plain.element? id = (d.element? id).map (Element.plain (id != 0)) := by
  simp only [element?, content?_plain]
  cases d.content? id with
  | none => rfl
  | some c => cases c <;> rfl

@[simp] theorem parent?_plain (id : NodeId) : d.plain.parent? id = d.parent? id := by
  simp only [parent?, node?_plain]
  cases d.node? id <;> rfl

@[simp] theorem children_plain (id : NodeId) : d.plain.children id = d.children id := by
  simp only [children, element?_plain]
  cases d.element? id <;> rfl

@[simp] theorem attributes_plain (id : NodeId) : d.plain.attributes id = d.attributes id := by
  simp only [attributes, element?_plain]
  cases d.element? id <;> rfl

@[simp] theorem record?_plain (id : NodeId) : d.plain.record? id = d.record? id := by
  simp only [record?, element?_plain]
  cases d.element? id <;> rfl

@[simp] theorem isComment_plain (id : NodeId) : d.plain.isComment id = d.isComment id := by
  simp only [isComment, content?_plain]
  cases d.content? id with
  | none => rfl
  | some c => cases c <;> rfl

@[simp] theorem nextSibling?_plain (id : NodeId) : d.plain.nextSibling? id = d.nextSibling? id := by
  simp only [nextSibling?, parent?_plain, children_plain]

theorem filterMap_mapIdx {α β γ : Type} {g : β → Option γ} {g' : α → Option γ} :
    ∀ (l : List α) (f : Nat → α → β), (∀ i a, g (f i a) = g' a) →
      (l.mapIdx f).filterMap g = l.filterMap g'
  | [], _, _ => rfl
  | a :: rest, f, h => by
    rw [List.mapIdx_cons, List.filterMap_cons, List.filterMap_cons, h,
      filterMap_mapIdx rest _ fun i b => h (i + 1) b]

@[simp] theorem attached_plain : d.plain.attached = d.attached := by
  simp only [attached, plain, Array.toList_mapIdx]
  refine filterMap_mapIdx _ _ fun id node? => ?_
  obtain _ | ⟨parent, _ | _ | _⟩ := node? <;> rfl

theorem plain_add (parent : Option NodeId) (content : Content) :
    (d.add parent content).2.plain = (d.plain.add parent (content.plain (d.size != 0))).2 := by
  refine ext_node? (by simp) fun id => ?_
  simp only [node?_plain, node?_add, size_plain]
  split
  · next h => rw [h]; rfl
  · rfl

theorem plain_setContent (id : NodeId) (content : Content) :
    (d.setContent id content).plain = d.plain.setContent id (content.plain (id != 0)) := by
  refine ext_node? (by simp) fun other => ?_
  simp only [node?_plain, node?_setContent]
  split
  · next h =>
    rw [h]
    cases d.node? id <;> rfl
  · rfl

theorem plain_updateElement {change change' : Element → Element}
    (h : ∀ named e, (change e).plain named = change' (e.plain named)) (id : NodeId) :
    (d.updateElement id change).plain = d.plain.updateElement id change' := by
  simp only [updateElement, element?_plain]
  cases d.element? id with
  | none => rfl
  | some e => exact (plain_setContent ..).trans (congrArg _ (congrArg Content.element (h _ e)))

theorem plain_setChildren (id : NodeId) (l : List NodeId) :
    (d.setChildren id l).plain = d.plain.setChildren id l :=
  d.plain_updateElement (fun _ _ => rfl) id

theorem plain_updateRecord (id : NodeId) (change : NodeRecord → NodeRecord) :
    (d.updateRecord id change).plain = d.plain.updateRecord id change :=
  d.plain_updateElement (fun _ _ => rfl) id

theorem plain_setComment (id : NodeId) (value : String) :
    (d.setComment id value).plain = d.plain.setComment id value := by
  simp only [setComment, isComment_plain]
  split
  · exact plain_setContent ..
  · rfl

theorem plain_adopt (p : NodeId) (position : Nat) (content : Content) :
    (d.adopt p position content).plain =
      d.plain.adopt p position (content.plain (d.size != 0)) := by
  simp only [adopt, plain_setChildren, plain_add, children_plain, size_plain]

end Document

end KeyedRender

import KeyedRender.Document.Basic

/-!
# The nodes of a changed document

What each change of a document does to its nodes: adding one leaves the others alone, a change of
content keeps every parent, and erasing removes one node only.
-/
namespace KeyedRender.Document

theorem node?_of_size_le {d : Document} {id : NodeId} (h : d.size ≤ id) : d.node? id = none := by
  simp [node?, Array.getElem?_eq_none (show d.nodes.size ≤ id from h)]

theorem lt_size_of_node? {d : Document} {id : NodeId} {n : Node} (h : d.node? id = some n) :
    id < d.size := by
  by_cases hid : id < d.size
  · exact hid
  · rw [node?_of_size_le (Nat.le_of_not_lt hid)] at h
    cases h

theorem node?_single (name : String) (id : NodeId) : (single name).node? id =
    if id = 0 then some ⟨none, .element (.new name "")⟩ else none := by
  cases id with
  | zero => rfl
  | succ n => simp [single, node?]

@[simp] theorem add_fst (d : Document) (parent : Option NodeId) (content : Content) :
    (d.add parent content).1 = d.size := rfl

@[simp] theorem size_add (d : Document) (parent : Option NodeId) (content : Content) :
    (d.add parent content).2.size = d.size + 1 := by
  simp [add, size]

theorem node?_add (d : Document) (parent : Option NodeId) (content : Content) (id : NodeId) :
    (d.add parent content).2.node? id =
      if id = d.size then some ⟨parent, content⟩ else d.node? id := by
  by_cases h : id = d.nodes.size <;> simp [add, node?, size, Array.getElem?_push, h]

@[simp] theorem size_setContent (d : Document) (id : NodeId) (content : Content) :
    (d.setContent id content).size = d.size := by
  simp [setContent, size]

theorem node?_setContent (d : Document) (id other : NodeId) (content : Content) :
    (d.setContent id content).node? other =
      if other = id then (d.node? id).map fun n => { n with content := content }
      else d.node? other := by
  by_cases h : other = id
  · subst h
    simp only [setContent, node?, Array.getElem?_modify, if_true]
    cases d.nodes[other]? <;> rfl
  · simp only [setContent, node?, Array.getElem?_modify, if_neg h, if_neg (Ne.symm h)]

@[simp] theorem parent?_setContent (d : Document) (id other : NodeId) (content : Content) :
    (d.setContent id content).parent? other = d.parent? other := by
  simp only [parent?, node?_setContent]
  split
  · next h => subst h; cases d.node? other <;> rfl
  · rfl

theorem element?_eq_some_iff {d : Document} {id : NodeId} {e : Element} :
    d.element? id = some e ↔ d.content? id = some (.element e) := by
  unfold element?
  split
  · next h => simp [h]
  · next h => simp only [false_iff, reduceCtorEq]; exact fun hc => h e hc

@[simp] theorem size_updateElement (d : Document) (id : NodeId) (change : Element → Element) :
    (d.updateElement id change).size = d.size := by
  unfold updateElement; split <;> simp

@[simp] theorem parent?_updateElement (d : Document) (id other : NodeId)
    (change : Element → Element) :
    (d.updateElement id change).parent? other = d.parent? other := by
  unfold updateElement; split <;> simp

theorem content?_updateElement (d : Document) (id other : NodeId) (change : Element → Element) :
    (d.updateElement id change).content? other =
      if other = id then
        match d.content? id with
        | some (.element e) => some (.element (change e))
        | content => content
      else d.content? other := by
  unfold updateElement
  cases he : d.element? id with
  | none =>
    by_cases h : other = id
    · subst h
      rw [if_pos rfl]
      dsimp only
      split
      · next e hc => rw [element?_eq_some_iff.2 hc] at he; cases he
      · rfl
    · rw [if_neg h]
  | some e =>
    have hc := element?_eq_some_iff.1 he
    by_cases h : other = id
    · subst h
      rw [if_pos rfl, hc]
      simp only [content?, node?_setContent, if_true] at hc ⊢
      cases hn : d.node? other with
      | none => rw [hn] at hc; cases hc
      | some n => rfl
    · simp [content?, node?_setContent, h]

theorem element?_updateElement (d : Document) (id other : NodeId) (change : Element → Element) :
    (d.updateElement id change).element? other =
      if other = id then (d.element? id).map change else d.element? other := by
  by_cases h : other = id
  · subst h
    simp only [if_true]
    cases he : d.element? other with
    | some e =>
      rw [element?_eq_some_iff] at he
      simp [element?, content?_updateElement, he]
    | none =>
      simp only [Option.map_none]
      rw [updateElement, he]
      exact he
  · simp [element?, content?_updateElement, h]

theorem children_setChildren (d : Document) (id other : NodeId) (children : List NodeId) :
    (d.setChildren id children).children other =
      if other = id ∧ (d.element? id).isSome then children else d.children other := by
  by_cases h : other = id
  · subst h
    cases he : d.element? other <;> simp [Document.children, setChildren, element?_updateElement, he]
  · simp [Document.children, setChildren, element?_updateElement, h]

@[simp] theorem size_erase (d : Document) (id : NodeId) : (d.erase id).size = d.size := by
  simp [erase, size]

theorem node?_erase (d : Document) (id other : NodeId) :
    (d.erase id).node? other = if other = id then none else d.node? other := by
  by_cases h : other = id
  · subst h
    simp only [erase, node?, Array.getElem?_modify, if_true]
    cases d.nodes[other]? <;> rfl
  · simp only [erase, node?, Array.getElem?_modify, if_neg h, if_neg (Ne.symm h)]

theorem siblingsFrom_none (d : Document) : d.siblingsFrom none = [] := by
  unfold siblingsFrom
  cases d.size <;> rfl

end KeyedRender.Document

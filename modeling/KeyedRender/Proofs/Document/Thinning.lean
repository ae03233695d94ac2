import KeyedRender.Proofs.Document.Attaching

/-!
# Documents that get thinner

Between two insertions a document only gets thinner: no node becomes an element, and child lists
lose nodes from their ends.
-/
namespace KeyedRender.Document

variable {d d' d'' : Document}

structure Thins (d d' : Document) : Prop where
  size : d'.size = d.size
  element : ∀ {id}, d.element? id = none → d'.element? id = none
  children : ∀ p, ∃ k, d'.children p = (d.children p).take k

namespace Thins

theorem of_children {p : NodeId} (h : d'.children p = d.children p) :
    ∃ k, d'.children p = (d.children p).take k :=
  ⟨(d.children p).length, by rw [h, List.take_length]⟩

theorem refl (d : Document) : d.Thins d := ⟨rfl, id, fun _ => of_children rfl⟩

theorem trans (h : d.Thins d') (h' : d'.Thins d'') : d.Thins d'' where
  size := h'.size.trans h.size
  element he := h'.element (h.element he)
  children p := by
    obtain ⟨k, hk⟩ := h.children p
    obtain ⟨l, hl⟩ := h'.children p
    exact ⟨min l k, by rw [hl, hk, List.take_take]⟩

theorem subset (h : d.Thins d') {p : NodeId} {id : NodeId} (hid : id ∈ d'.children p) :
    id ∈ d.children p := by
  obtain ⟨k, hk⟩ := h.children p
  rw [hk] at hid
  exact List.mem_of_mem_take hid

theorem subset_drop (h : d.Thins d') {p : NodeId} {n : Nat} {id : NodeId}
    (hid : id ∈ (d'.children p).drop n) : id ∈ (d.children p).drop n := by
  obtain ⟨k, hk⟩ := h.children p
  rw [hk, List.drop_take] at hid
  exact List.mem_of_mem_take hid

theorem updateElement (d : Document) (id : NodeId) {change : Element → Element}
    (h : ∀ e, (change e).children = e.children) : d.Thins (d.updateElement id change) where
  size := size_updateElement ..
  element {other} he := by
    rw [element?_updateElement]
    split
    · next hid =>
      subst hid
      rw [he]
      rfl
    · exact he
  children p := of_children (children_updateElement d id p h)

theorem updateRecord (d : Document) (id : NodeId) (change : NodeRecord → NodeRecord) :
    d.Thins (d.updateRecord id change) := updateElement d id fun _ => rfl

theorem attachedDocument (d : Document) (id : ComponentId) (c : Component) (root : NodeId) :
    d.Thins (attachedDocument d id c root) := by
  have hdetach : d.Thins (RenderM.detach d id c.node root) := by
    rcases detach_cases d id c.node root with h | ⟨n, -, -, h⟩
    · rw [h]
      exact refl d
    · rw [h]
      exact updateRecord d n _
  rcases attachedDocument_cases d id c root with ⟨-, h⟩ | h
  · rw [h]
    exact hdetach
  · rw [h]
    exact hdetach.trans (updateRecord _ root _)

theorem setChildren (d : Document) (p : NodeId) (k : Nat) :
    d.Thins (d.setChildren p ((d.children p).take k)) where
  size := size_updateElement ..
  element {other} he := by
    have hsome := isSome_element?_setChildren d p other ((d.children p).take k)
    rw [he] at hsome
    exact Option.isNone_iff_eq_none.1 (Option.isSome_eq_false_iff.1 hsome)
  children q := by
    rw [children_setChildren]
    split
    · next h => exact ⟨k, by rw [h.1]⟩
    · exact of_children rfl

theorem setContent {id : NodeId} {content : Content} (hold : d.element? id = none)
    (hnew : ∀ e, content ≠ .element e) : d.Thins (d.setContent id content) := by
  have hself : (d.setContent id content).element? id = none := by
    simp only [element?, content?, node?_setContent, if_true]
    cases d.node? id with
    | none => rfl
    | some n =>
      cases content with
      | element e => exact absurd rfl (hnew e)
      | _ => rfl
  have helement : ∀ other, (d.setContent id content).element? other = d.element? other := by
    intro other
    by_cases hid : other = id
    · rw [hid, hself, hold]
    · exact element?_setContent_ne hid
  refine ⟨size_setContent .., fun {other} he => (helement other).trans he, fun p => of_children ?_⟩
  simp only [Document.children, helement]

theorem setComment (d : Document) (id : NodeId) (value : String) :
    d.Thins (d.setComment id value) := by
  unfold Document.setComment
  split
  · next hid => exact setContent (element?_of_isComment hid) (by simp)
  · exact refl d

theorem erase (d : Document) (id : NodeId) : d.Thins (d.erase id) where
  size := size_erase ..
  element {other} he := by
    by_cases hid : other = id
    · simp [element?, content?, node?_erase, hid]
    · have hnode : (d.erase id).node? other = d.node? other := by rw [node?_erase, if_neg hid]
      rw [element?_eq_of_node? hnode, he]
  children p := by
    by_cases hp : p = id
    · refine ⟨0, ?_⟩
      rw [List.take_zero, children_of_node?_eq_none (by rw [node?_erase, if_pos hp])]
    · exact of_children (children_eq_of_node? (by rw [node?_erase, if_neg hp]))

theorem dropWithin (fuel : Nat) (ids : List NodeId) (d : Document) :
    d.Thins (dropWithin fuel ids d) := by
  induction fuel generalizing ids d with
  | zero => exact refl d
  | succ fuel ih =>
    induction ids generalizing d with
    | nil => exact refl d
    | cons id rest ihs =>
      simp only [Document.dropWithin, List.foldl_cons]
      have first : d.Thins
          (if d.isLive id then Document.dropWithin fuel (d.children id) (d.erase id) else d) := by
        split
        · exact (erase d id).trans (ih _ _)
        · exact refl d
      exact first.trans (ihs _)

theorem dropAll (d : Document) (ids : List NodeId) : d.Thins (d.dropAll ids) := dropWithin _ ids d

end Thins

end KeyedRender.Document

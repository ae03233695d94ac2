import KeyedRender.Proofs.Document.Region
import KeyedRender.Proofs.Document.Slots

/-!
# Attaching in a document

Attaching a component changes records only: the one of its root, which holds it then, and the one
of a node that held it before.
-/
namespace KeyedRender.Document

open RenderM (detach Holds)

variable {d : Document} {id : ComponentId} {c : Component} {root m n p : NodeId}

theorem node?_updateRecord_ne (change : NodeRecord → NodeRecord) (h : m ≠ n) :
    (d.updateRecord n change).node? m = d.node? m := node?_updateElement_ne _ h

theorem children_updateRecord (d : Document) (n : NodeId) (change : NodeRecord → NodeRecord)
    (m : NodeId) : (d.updateRecord n change).children m = d.children m :=
  children_updateElement d n m fun _ => rfl

theorem size_updateRecord (d : Document) (n : NodeId) (change : NodeRecord → NodeRecord) :
    (d.updateRecord n change).size = d.size := size_updateElement ..

theorem detach_cases (d : Document) (id : ComponentId) (previous : Option NodeId)
    (root : NodeId) : detach d id previous root = d ∨ ∃ n, n ≠ root ∧ Holds d n id ∧
      detach d id previous root = d.updateRecord n fun r => { r with slot := none } := by
  cases previous with
  | none => exact .inl rfl
  | some n =>
    by_cases hn : n ≠ root ∧ Holds d n id
    · exact .inr ⟨n, hn.1, hn.2, if_pos hn⟩
    · exact .inl (if_neg hn)

theorem attachedDocument_cases (d : Document) (id : ComponentId) (c : Component) (root : NodeId) :
    (Holds (detach d id c.node root) root id ∧
      attachedDocument d id c root = detach d id c.node root) ∨
    attachedDocument d id c root = (detach d id c.node root).updateRecord root fun r =>
      { r with slot := some ⟨c.type.tag, c.key, id⟩ } := by
  by_cases h : Holds (detach d id c.node root) root id
  · exact .inl ⟨h, if_pos h⟩
  · exact .inr (if_neg h)

theorem of_attachedDocument {P : Document → Prop} (h : P d)
    (hslot : ∀ d n slot, P d → P (updateRecord d n fun r => { r with slot := slot })) :
    P (attachedDocument d id c root) := by
  have hdetach : P (detach d id c.node root) := by
    rcases detach_cases d id c.node root with hsame | ⟨n, -, -, hn⟩
    · rwa [hsame]
    · rw [hn]
      exact hslot d n _ h
  rcases attachedDocument_cases d id c root with ⟨-, hsame⟩ | hroot
  · rwa [hsame]
  · rw [hroot]
    exact hslot _ root _ hdetach

theorem node?_attachedDocument (hroot : m ≠ root) (hm : ¬ Holds d m id) :
    (attachedDocument d id c root).node? m = d.node? m := by
  have hdetach : (detach d id c.node root).node? m = d.node? m := by
    rcases detach_cases d id c.node root with h | ⟨n, -, hn, h⟩
    · rw [h]
    · rw [h, node?_updateRecord_ne]
      rintro rfl
      exact hm hn
  rcases attachedDocument_cases d id c root with ⟨-, h⟩ | h
  · rw [h, hdetach]
  · rw [h, node?_updateRecord_ne _ hroot, hdetach]

theorem children_attachedDocument (d : Document) (id : ComponentId) (c : Component)
    (root m : NodeId) : (attachedDocument d id c root).children m = d.children m := by
  have hdetach : (detach d id c.node root).children m = d.children m := by
    rcases detach_cases d id c.node root with h | ⟨n, -, -, h⟩
    · rw [h]
    · rw [h, children_updateRecord]
  rcases attachedDocument_cases d id c root with ⟨-, h⟩ | h
  · rw [h, hdetach]
  · rw [h, children_updateRecord, hdetach]

theorem size_attachedDocument (d : Document) (id : ComponentId) (c : Component) (root : NodeId) :
    (attachedDocument d id c root).size = d.size := by
  have hdetach : (detach d id c.node root).size = d.size := by
    rcases detach_cases d id c.node root with h | ⟨n, -, -, h⟩
    · rw [h]
    · rw [h, size_updateRecord]
  rcases attachedDocument_cases d id c root with ⟨-, h⟩ | h
  · rw [h, hdetach]
  · rw [h, size_updateRecord, hdetach]

theorem element?_attachedDocument {e : Element} (he : d.element? root = some e) :
    ∃ r s, (attachedDocument d id c root).element? root = some { e with record := r } ∧
      r.slot = some s ∧ s.component = id := by
  have hdetach : (detach d id c.node root).element? root = some e := by
    rcases detach_cases d id c.node root with h | ⟨n, hne, -, h⟩
    · rw [h, he]
    · rw [h, element?_eq_of_node? (node?_updateRecord_ne _ hne.symm), he]
  rcases attachedDocument_cases d id c root with ⟨hholds, h⟩ | h
  · obtain ⟨s, hs, hid⟩ := holds_iff.1 hholds
    obtain ⟨e', he', hslot⟩ := slot?_eq_some_iff.1 hs
    obtain rfl := Option.some.inj (hdetach.symm.trans he')
    exact ⟨e.record, s, h ▸ hdetach, hslot, hid⟩
  · refine ⟨{ e.record with slot := some ⟨c.type.tag, c.key, id⟩ }, _, ?_, rfl, rfl⟩
    rw [h, updateRecord, element?_updateElement, if_pos rfl, hdetach]
    rfl

theorem attachedDocument_eq_self {s : ComponentSlot} (hs : d.slot? root = some s)
    (hid : s.component = id) (hnode : c.node = some root) : attachedDocument d id c root = d := by
  have hdetach : detach d id c.node root = d := by
    rw [hnode]
    exact if_neg fun h => h.1 rfl
  have hholds : Holds (detach d id c.node root) root id := holds_iff.2 ⟨s, hdetach.symm ▸ hs, hid⟩
  exact (if_pos hholds).trans hdetach

theorem EditsBelow.attachedDocument (hd : d.IsTree) (hroot : root ∈ d.children p)
    (hheld : ∀ n, Holds d n id → n ∈ d.children p) :
    d.EditsBelow p (attachedDocument d id c root) := by
  have hne : ∀ n ∈ d.children p, p ≠ n := fun n hn => Nat.ne_of_lt (hd.lt hn)
  refine ⟨⟨Nat.le_of_eq (size_attachedDocument ..).symm, fun q n hn => .inl ?_⟩,
    fun m _ hout => ?_, .of_element? ?_⟩
  · rwa [children_attachedDocument] at hn
  · refine node?_attachedDocument (fun h => hout ?_) fun h => hout (.child .self (hheld m h))
    exact h ▸ .child .self hroot
  · exact element?_eq_of_node? (node?_attachedDocument (hne root hroot)
      fun h => hne p (hheld p h) rfl)

end KeyedRender.Document

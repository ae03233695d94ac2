import KeyedRender.Proofs.Document.Records
import KeyedRender.Proofs.Render.Stable

/-!
# The slots of a document

Components are attached to slots. Changing a document as a target does takes slots away at most;
attaching a component fills the slot of its root and leaves no other slot to it.
-/
namespace KeyedRender.Document

variable {d d' d'' : Document}

def slot? (d : Document) (id : NodeId) : Option ComponentSlot :=
  (d.record? id).bind NodeRecord.slot

theorem slot?_eq_some_iff {id : NodeId} {s : ComponentSlot} :
    d.slot? id = some s ↔ ∃ e, d.element? id = some e ∧ e.record.slot = some s := by
  cases he : d.element? id <;> simp [slot?, record?, he]

theorem slot?_single (name : String) (id : NodeId) : (single name).slot? id = none := by
  by_cases h : id = 0 <;>
    simp [slot?, record?, element?, content?, node?_single, h, Element.new, NodeRecord.empty]

def SlotsWithin (d d' : Document) : Prop := ∀ id s, d'.slot? id = some s → d.slot? id = some s

namespace SlotsWithin

theorem refl (d : Document) : d.SlotsWithin d := fun _ _ hs => hs

theorem trans (h : d.SlotsWithin d') (h' : d'.SlotsWithin d'') : d.SlotsWithin d'' :=
  fun id s hs => h id s (h' id s hs)

theorem of_keeps (h : d.Keeps NodeRecord.slot d') : d.SlotsWithin d' := by
  intro id s hs
  obtain ⟨e', he', hslot⟩ := slot?_eq_some_iff.1 hs
  rcases h.content (element?_eq_some_iff.1 he') with ⟨-, hempty⟩ | ⟨c, hc, heq⟩
  · have hnone : e'.record.slot = none := hempty _ rfl
    rw [hnone] at hslot
    cases hslot
  · cases c with
    | element e =>
      have hsame : e.record.slot = e'.record.slot := Option.some.inj heq
      exact slot?_eq_some_iff.2 ⟨e, element?_eq_some_iff.2 hc, hsame.trans hslot⟩
    | text value => cases heq
    | comment value => cases heq

end SlotsWithin

open RenderM (detach Holds)

theorem holds_iff {n : NodeId} {id : ComponentId} :
    Holds d n id ↔ ∃ s, d.slot? n = some s ∧ s.component = id := by
  unfold Holds slot?
  rw [Option.map_eq_some_iff]

theorem record?_updateRecord (d : Document) (id other : NodeId) (change : NodeRecord → NodeRecord) :
    (d.updateRecord id change).record? other =
      if other = id then (d.record? id).map change else d.record? other := by
  simp only [record?, Document.updateRecord, element?_updateElement]
  split
  · cases d.element? id <;> rfl
  · rfl

theorem slot?_clear (d : Document) (id other : NodeId) :
    (d.updateRecord id fun r => { r with slot := none }).slot? other =
      if other = id then none else d.slot? other := by
  rw [slot?, record?_updateRecord]
  split
  · cases d.record? id <;> rfl
  · rfl

theorem slot?_detach (id : ComponentId) (previous : Option NodeId) (root n : NodeId) :
    (detach d id previous root).slot? n =
      if previous = some n ∧ n ≠ root ∧ Holds d n id then none else d.slot? n := by
  cases previous with
  | none => simp [detach]
  | some m =>
    by_cases hm : m ≠ root ∧ Holds d m id
    · simp only [detach, if_pos hm, slot?_clear, Option.some.injEq]
      by_cases hn : n = m
      · subst hn
        rw [if_pos rfl, if_pos ⟨rfl, hm⟩]
      · rw [if_neg hn, if_neg fun h => hn h.1.symm]
    · simp only [detach, if_neg hm, Option.some.injEq]
      rw [if_neg]
      rintro ⟨rfl, h⟩
      exact hm h

theorem slotsWithin_detach (id : ComponentId) (previous : Option NodeId) (root : NodeId) :
    d.SlotsWithin (detach d id previous root) := by
  intro n s hs
  rw [slot?_detach] at hs
  split at hs
  · cases hs
  · exact hs

theorem slot?_attachedDocument {id : ComponentId} {c : Component} {root n : NodeId}
    {s : ComponentSlot} (h : (attachedDocument d id c root).slot? n = some s) :
    (n = root ∧ (s = ⟨c.type.tag, c.key, id⟩ ∨ s.component = id ∧ d.slot? root = some s) ∧
      ((detach d id c.node root).record? root).isSome) ∨
    (n ≠ root ∧ (detach d id c.node root).slot? n = some s) := by
  by_cases hn : n = root
  · subst hn
    refine .inl ⟨rfl, ?_⟩
    simp only [attachedDocument] at h
    split at h
    · next hholds =>
      obtain ⟨s', hs', hid⟩ := holds_iff.1 hholds
      obtain rfl : s' = s := Option.some.inj (hs'.symm.trans h)
      refine ⟨.inr ⟨hid, slotsWithin_detach _ _ _ _ _ h⟩, ?_⟩
      obtain ⟨e, he, -⟩ := slot?_eq_some_iff.1 h
      simp [record?, he]
    · rw [slot?, record?_updateRecord, if_pos rfl] at h
      cases hr : (detach d id c.node n).record? n with
      | none =>
        rw [hr] at h
        cases h
      | some r =>
        rw [hr] at h
        exact ⟨.inl (Option.some.inj h).symm, rfl⟩
  · refine .inr ⟨hn, ?_⟩
    simp only [attachedDocument] at h
    split at h
    · exact h
    · rwa [slot?, record?_updateRecord, if_neg hn] at h

end KeyedRender.Document

import KeyedRender.Proofs.Document.Change

/-!
# Relations that edits keep

Whatever a target calls, its document changes by a few edits. A relation of documents that contains
each of them contains all that calls do, whatever state the target is in. What holds of an element
and has nothing to do with its children stays true while the tree around it changes.
-/
namespace KeyedRender.Document

/-- A relation that contains the edits: elements change, but for their records, text changes, and
nodes are added or erased. Rewriting a comment is left out. -/
structure Editing (R : Document → Document → Prop) : Prop where
  refl : ∀ d, R d d
  trans : ∀ {d d' d''}, R d d' → R d' d'' → R d d''
  updateElement : ∀ (d : Document) (id : NodeId) {change : Element → Element},
    (∀ e, (change e).record = e.record) → R d (d.updateElement id change)
  setText : ∀ {d : Document} {id : NodeId} {old : String} (value : String),
    d.content? id = some (.text old) → R d (d.setContent id (.text value))
  add : ∀ (d : Document) (parent : Option NodeId) {content : Content},
    (∀ e, content = .element e → e.record = .empty) → R d (d.add parent content).2
  erase : ∀ (d : Document) (id : NodeId), R d (d.erase id)

structure Restructuring (R : Document → Document → Prop) : Prop where
  refl : ∀ d, R d d
  trans : ∀ {d d' d''}, R d d' → R d' d'' → R d d''
  setChildren : ∀ (d : Document) (id : NodeId) (l : List NodeId), R d (d.setChildren id l)
  setText : ∀ {d : Document} {id : NodeId} {old : String} (value : String),
    d.content? id = some (.text old) → R d (d.setContent id (.text value))
  add : ∀ (d : Document) (parent : Option NodeId) {content : Content},
    (∀ e, content = .element e → e = .new e.name e.key) → R d (d.add parent content).2
  erase : ∀ (d : Document) (id : NodeId), R d (d.erase id)

structure Reshaping (R : Document → Document → Prop) : Prop extends Restructuring R where
  updateElement : ∀ (d : Document) (id : NodeId) {change : Element → Element},
    (∀ e, (change e).record = e.record) → (∀ e, (change e).raw = e.raw) →
      R d (d.updateElement id change)

theorem Editing.reshaping {R : Document → Document → Prop} (h : Editing R) : Reshaping R where
  refl := h.refl
  trans := h.trans
  setChildren d id _ := h.updateElement d id fun _ => rfl
  updateElement d id _ hrecord _ := h.updateElement d id hrecord
  setText := h.setText
  add d parent _ hc := h.add d parent fun e he => congrArg Element.record (hc e he)
  erase := h.erase

namespace Restructuring

variable {R : Document → Document → Prop} (h : Restructuring R)
include h

theorem dropWithin (fuel : Nat) (ids : List NodeId) (d : Document) :
    R d (dropWithin fuel ids d) := by
  induction fuel generalizing ids d with
  | zero => exact h.refl d
  | succ fuel ih =>
    induction ids generalizing d with
    | nil => exact h.refl d
    | cons id rest ihs =>
      simp only [Document.dropWithin, List.foldl_cons]
      have first :
          R d (if d.isLive id then Document.dropWithin fuel (d.children id) (d.erase id) else d) := by
        split
        · exact h.trans (h.erase d id) (ih _ _)
        · exact h.refl d
      exact h.trans first (ihs _)

theorem dropAll (d : Document) (ids : List NodeId) : R d (d.dropAll ids) := h.dropWithin _ ids d

theorem prune (d : Document) (id : NodeId) (keep rest : List NodeId) :
    R d ((d.setChildren id keep).dropAll rest) :=
  h.trans (h.setChildren d id keep) (h.dropAll _ rest)

theorem keeping {P : Document → Prop} (hP : ∀ {d d'}, R d d' → P d → P d') :
    Restructuring fun d d' => P d → P d' where
  refl _ hd := hd
  trans h h' hd := h' (h hd)
  setChildren d id l := hP (h.setChildren d id l)
  setText value ht := hP (h.setText value ht)
  add d parent _ hc := hP (h.add d parent hc)
  erase d id := hP (h.erase d id)

end Restructuring

section HoldsAt

/-- A node, if it is an element, is one that a predicate is true of. -/
def HoldsAt (id : NodeId) (P : Element → Prop) (d : Document) : Prop :=
  ∀ e, d.element? id = some e → P e

variable {d : Document} {id : NodeId} {P : Element → Prop}

theorem HoldsAt.updateElement (h : d.HoldsAt id P) {node : NodeId} {change : Element → Element}
    (hc : node = id → ∀ e, P e → P (change e)) : (d.updateElement node change).HoldsAt id P := by
  intro e he
  rw [element?_updateElement] at he
  split at he
  · next hid =>
    obtain ⟨old, hold, rfl⟩ := Option.map_eq_some_iff.1 he
    exact hc hid.symm old (h old (hid ▸ hold))
  · exact h e he

theorem HoldsAt.setContent (h : d.HoldsAt id P) {node : NodeId} {content : Content}
    (hnew : ∀ e, content ≠ .element e) : (d.setContent node content).HoldsAt id P := by
  intro e he
  by_cases hid : id = node
  · rw [element?_eq_some_iff, content?, node?_setContent, if_pos hid] at he
    cases hn : d.node? node with
    | none => simp [hn] at he
    | some n => exact absurd (by simpa [hn] using he) (hnew e)
  · rw [element?_setContent_ne hid] at he
    exact h e he

theorem HoldsAt.setComment (h : d.HoldsAt id P) (node : NodeId) (value : String) :
    (d.setComment node value).HoldsAt id P := by
  unfold Document.setComment
  split
  · exact h.setContent (by simp)
  · exact h

theorem restructuring_holdsAt (hnew : ∀ name key, P (.new name key))
    (hchildren : ∀ e l, P e → P { e with children := l }) :
    Restructuring fun d d' => d.HoldsAt id P → d'.HoldsAt id P where
  refl _ h := h
  trans h h' hd := h' (h hd)
  setChildren _ _ _ h := h.updateElement fun _ e he => hchildren e _ he
  setText _ _ h := h.setContent (by simp)
  add d parent content hc h e he := by
    by_cases hid : id = d.size
    · rw [element?_eq_some_iff, content?, node?_add, if_pos hid] at he
      rw [hc e (Option.some.inj he)]
      exact hnew _ _
    · rw [element?_add d parent content hid] at he
      exact h e he
  erase d node h e he := by
    rw [element?_eq_some_iff, content?, node?_erase] at he
    split at he
    · cases he
    · exact h e (element?_eq_some_iff.2 he)

theorem holdsAt_single (hnew : ∀ name key, P (.new name key)) (name : String) :
    (single name).HoldsAt id P := by
  intro e he
  rw [element?_eq_some_iff, content?, node?_single] at he
  split at he
  · cases he
    exact hnew _ _
  · cases he

end HoldsAt

structure SameParents (d d' : Document) : Prop where
  size : d.size ≤ d'.size
  parent : ∀ {id p}, id < d.size → d'.parent? id = some p → d.parent? id = some p

theorem sameParents_of_parent? {d d' : Document} (hsize : d'.size = d.size)
    (h : ∀ id, d'.parent? id = d.parent? id) : d.SameParents d' :=
  ⟨Nat.le_of_eq hsize.symm, fun {id _} _ hp => (h id).symm.trans hp⟩

theorem editing_sameParents : Editing SameParents where
  refl d := sameParents_of_parent? rfl fun _ => rfl
  trans h h' := ⟨Nat.le_trans h.size h'.size, fun hid hp =>
    h.parent hid (h'.parent (Nat.lt_of_lt_of_le hid h.size) hp)⟩
  updateElement _ _ _ _ := sameParents_of_parent? (size_updateElement ..) fun _ =>
    parent?_updateElement ..
  setText _ _ := sameParents_of_parent? (size_setContent ..) fun _ => parent?_setContent ..
  add d parent content _ := by
    refine ⟨by simp, fun {id p} hid hp => ?_⟩
    rwa [parent?, node?_add, if_neg (Nat.ne_of_lt hid), ← parent?] at hp
  erase d id := by
    refine ⟨Nat.le_of_eq (size_erase ..).symm, fun {other p} _ hp => ?_⟩
    rw [parent?, node?_erase] at hp
    split at hp
    · cases hp
    · exact hp

theorem SameParents.setComment (d : Document) (id : NodeId) (value : String) :
    d.SameParents (d.setComment id value) := by
  unfold Document.setComment
  split
  · exact sameParents_of_parent? (size_setContent ..) fun _ => parent?_setContent ..
  · exact editing_sameParents.refl d

end KeyedRender.Document

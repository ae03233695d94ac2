import KeyedRender.Proofs.Document.Tree
import Mathlib.Data.List.Perm.Subperm

/-!
# Siblings

In a tree, going on from a child gives the rest of the list it is in.
-/
namespace KeyedRender

theorem after?_eq {l : List NodeId} (hl : l.Nodup) {i : Nat} {id : NodeId} (h : l[i]? = some id) :
    after? id l = l[i + 1]? := by
  induction l generalizing i with
  | nil => simp at h
  | cons first rest ih =>
    obtain ⟨hfirst, hrest⟩ := List.nodup_cons.1 hl
    cases i with
    | zero =>
      obtain rfl : first = id := by simpa using h
      simp [after?, List.head?_eq_getElem?]
    | succ i =>
      have hmem : rest[i]? = some id := by simpa using h
      have hne : first ≠ id := fun heq => hfirst (heq ▸ List.mem_of_getElem? hmem)
      simp [after?, hne, ih hrest hmem]

theorem exists_of_after? {l : List NodeId} {id c : NodeId} (h : after? id l = some c) :
    ∃ i, l[i]? = some id ∧ l[i + 1]? = some c := by
  induction l with
  | nil => cases h
  | cons first rest ih =>
    unfold after? at h
    split at h
    · next hfirst => exact ⟨0, by simp [hfirst], by simpa [List.head?_eq_getElem?] using h⟩
    · obtain ⟨i, hid, hc⟩ := ih h
      exact ⟨i + 1, by simpa using hid, by simpa using hc⟩

namespace Document

variable {d : Document} {p : NodeId}

theorem IsTree.nextSibling?_eq (hd : d.IsTree) {i : Nat} {id : NodeId}
    (h : (d.children p)[i]? = some id) : d.nextSibling? id = (d.children p)[i + 1]? := by
  have hparent : d.parent? id = some p := hd.parent (List.mem_of_getElem? h)
  simp [nextSibling?, hparent, after?_eq (TreeBut.nodup hd p) h]

/-- The next sibling is another child of the same parent. -/
theorem IsTree.of_nextSibling? (hd : d.IsTree) {id c : NodeId} (h : d.nextSibling? id = some c) :
    ∃ p, id ∈ d.children p ∧ c ∈ d.children p ∧ id ≠ c := by
  obtain ⟨p, -, hafter⟩ := Option.bind_eq_some_iff.1 h
  obtain ⟨i, hid, hc⟩ := exists_of_after? hafter
  refine ⟨p, List.mem_of_getElem? hid, List.mem_of_getElem? hc, ?_⟩
  rintro rfl
  obtain ⟨hlt, -⟩ := List.getElem?_eq_some_iff.1 hid
  have hsame := (List.getElem?_inj hlt (TreeBut.nodup hd p)).1 (hid.trans hc.symm)
  omega

theorem IsTree.siblingsWithin_eq (hd : d.IsTree) (fuel i : Nat)
    (hfuel : (d.children p).length ≤ i + fuel) :
    d.siblingsWithin fuel (d.children p)[i]? = (d.children p).drop i := by
  induction fuel generalizing i with
  | zero => simp [siblingsWithin, List.drop_of_length_le (show (d.children p).length ≤ i by omega)]
  | succ fuel ih =>
    cases h : (d.children p)[i]? with
    | none => simp [siblingsWithin, List.drop_of_length_le (List.getElem?_eq_none_iff.1 h)]
    | some id =>
      obtain ⟨hlt, hget⟩ := List.getElem?_eq_some_iff.1 h
      rw [List.drop_eq_getElem_cons hlt, hget, siblingsWithin, hd.nextSibling?_eq h,
        ih (i + 1) (by omega)]

theorem IsTree.length_children_le (hd : d.IsTree) (p : NodeId) :
    (d.children p).length ≤ d.size := by
  have hsub : d.children p ⊆ List.range d.size := by
    intro id hid
    obtain ⟨n, hn⟩ := isLive_iff.1 (hd.isLive_child hid)
    exact List.mem_range.2 (lt_size_of_node? hn)
  simpa using ((TreeBut.nodup hd p).subperm hsub).length_le

theorem IsTree.siblingsFrom_eq (hd : d.IsTree) (p : NodeId) (i : Nat) :
    d.siblingsFrom (d.children p)[i]? = (d.children p).drop i :=
  hd.siblingsWithin_eq _ _ (Nat.le_trans (hd.length_children_le p) (Nat.le_add_left _ _))

end Document

end KeyedRender

import KeyedRender.Proofs.Document.Siblings

/-!
# Walking along siblings

Going on to the next sibling, as a relation that knows no bound on the number of steps. In a tree
the walk from a node ends after the last of its siblings.
-/
namespace KeyedRender.Document

variable {d : Document}

/-- Going on to the next sibling until there is none, with the nodes on the way. -/
inductive Walks (d : Document) : Option NodeId → List NodeId → Prop
  | done : Walks d none []
  | next {id : NodeId} {rest : List NodeId} : Walks d (d.nextSibling? id) rest →
      Walks d (some id) (id :: rest)

/-- A node and the siblings that its parent lists after it. -/
def following (d : Document) : Option NodeId → List NodeId
  | none => []
  | some id =>
    match d.parent? id with
    | none => [id]
    | some p => (d.children p).drop ((d.children p).idxOf id)

theorem following_of_parent? {id p : NodeId} (h : d.parent? id = some p) :
    d.following (some id) = (d.children p).drop ((d.children p).idxOf id) := by
  simp only [following, h]

theorem following_of_orphan {id : NodeId} (h : d.parent? id = none) :
    d.following (some id) = [id] := by
  simp only [following, h]

namespace IsTree

theorem walks_drop (hd : d.IsTree) (p : NodeId) (i : Nat) :
    d.Walks (d.children p)[i]? ((d.children p).drop i) := by
  induction hn : (d.children p).length - i generalizing i with
  | zero =>
    have hle : (d.children p).length ≤ i := by omega
    rw [List.getElem?_eq_none_iff.2 hle, List.drop_of_length_le hle]
    exact .done
  | succ n ih =>
    have hlt : i < (d.children p).length := by omega
    have hget : (d.children p)[i]? = some (d.children p)[i] := List.getElem?_eq_getElem hlt
    rw [List.drop_eq_getElem_cons hlt, hget]
    refine .next ?_
    rw [hd.nextSibling?_eq hget]
    exact ih (i + 1) (by omega)

theorem getElem?_idxOf (hd : d.IsTree) {id p : NodeId} (h : d.parent? id = some p) :
    (d.children p)[(d.children p).idxOf id]? = some id := by
  have hlt := List.idxOf_lt_length_iff.2 (hd.mem_children h)
  rw [List.getElem?_eq_getElem hlt, List.getElem_idxOf]

theorem walks_following (hd : d.IsTree) (pointer : Option NodeId) :
    d.Walks pointer (d.following pointer) := by
  cases pointer with
  | none => exact .done
  | some id =>
    cases hp : d.parent? id with
    | none =>
      have hlast : d.nextSibling? id = none := by simp [nextSibling?, hp]
      rw [following_of_orphan hp]
      exact .next (hlast ▸ .done)
    | some p =>
      have hwalks := hd.walks_drop p ((d.children p).idxOf id)
      rwa [hd.getElem?_idxOf hp, ← following_of_parent? hp] at hwalks

end IsTree

end KeyedRender.Document

import KeyedRender.Proofs.Document.Region
import KeyedRender.Proofs.Target.Soundness

/-!
# Opening behind the visited children

Opening puts an element behind the children that were visited: the first of those left that is
accepted, or else a new one. The other children keep their order and everything they were.
-/
namespace KeyedRender

theorem filter_ne_append_cons {α β : Type} [DecidableEq β] {f : α → β} {before after : List α}
    {a : α} (h : ((before ++ a :: after).map f).Nodup) :
    (∀ b ∈ before ++ after, f b ≠ f a) ∧
      (before ++ a :: after).filter (fun b => f b ≠ f a) = before ++ after := by
  rw [List.map_append, List.map_cons, List.nodup_middle, ← List.map_append] at h
  have hother : ∀ b ∈ before ++ after, f b ≠ f a := fun b hb heq =>
    (List.nodup_cons.1 h).1 (heq ▸ List.mem_map_of_mem hb)
  refine ⟨hother, ?_⟩
  have hsplit : (before ++ a :: after).filter (fun b => f b ≠ f a) =
      (before ++ after).filter fun b => f b ≠ f a := by simp
  rw [hsplit, List.filter_eq_self.2 fun b hb => by simpa using hother b hb]

namespace KeyedDom

variable {t : KeyedDom} {root n : NodeId} {visited before after left : List NodeId}
  {below : List Frame} {name key : String}

structure Places (t : KeyedDom) (root : NodeId) (visited : List NodeId) (n : NodeId)
    (left : List NodeId) (below : List Frame) (t' : KeyedDom) : Prop where
  sound : t'.Sound
  mode : t'.mode = t.mode
  frames : t'.frames = ⟨n, 0⟩ :: ⟨root, visited.length + 1⟩ :: below
  children : t'.document.children root = visited ++ n :: left
  size : t.document.size ≤ t'.document.size
  elements : ∀ id < t.document.size, id ≠ root → t'.document.element? id = t.document.element? id

theorem Sound.places_found (h : t.Sound) (hf : t.frames = ⟨root, visited.length⟩ :: below)
    (hchildren : t.document.children root = visited ++ (before ++ n :: after))
    (hn : t.accepts name key n = true) (hbefore : ∀ id ∈ before, t.accepts name key id = false) :
    ∃ t', t.openElement name key = .ok (some n, t') ∧
      t.Places root visited n (before ++ after) below t' ∧ t'.created = t.created := by
  obtain ⟨e, he, -⟩ := h.current hf
  rw [Document.children_of_element? he] at hchildren
  have htake : e.children.take visited.length = visited := by simp [hchildren]
  have hsplit : e.children.drop visited.length = before ++ n :: after := by simp [hchildren]
  have hopen := openElement_found h hf he hsplit hn hbefore
  obtain ⟨r, hr, hsound⟩ := h.openElement name key
  rw [hopen] at hr
  cases hr
  refine ⟨_, hopen, ⟨hsound, rfl, rfl, ?children, ?size, ?elements⟩, rfl⟩
  case children => rw [Document.children_setChildren_self he, htake]
  case size => exact Nat.le_of_eq (Document.size_updateElement ..).symm
  case elements =>
    intro id _ hid
    rw [Document.setChildren, Document.element?_updateElement, if_neg hid]

theorem Sound.places_new (h : t.Sound) (hf : t.frames = ⟨root, visited.length⟩ :: below)
    (hchildren : t.document.children root = visited ++ left)
    (hleft : ∀ id ∈ left, t.accepts name key id = false) :
    ∃ t', t.openElement name key = .ok (some t.document.size, t') ∧
      t.Places root visited t.document.size left below t' ∧ t'.created = t.created + 1 ∧
      t'.document.element? t.document.size = some (.new name key) := by
  obtain ⟨e, he, hindex⟩ := h.current hf
  rw [Document.children_of_element? he] at hchildren
  have hrejects : ∀ id ∈ e.children.drop visited.length, t.accepts name key id = false := by
    simpa [hchildren] using hleft
  have hempty := Document.children_of_new name key
  have hopen := openElement_new h hf he hrejects
  obtain ⟨r, hr, hsound⟩ := h.openElement name key
  rw [hopen] at hr
  cases hr
  refine ⟨_, hopen, ⟨hsound, rfl, rfl, ?children, ?size, ?elements⟩, rfl, ?new⟩
  case children =>
    rw [Document.children_adopt he hempty, if_pos rfl, hchildren]
    exact insertIdx_append visited left t.document.size
  case size =>
    rw [Document.size_adopt]
    exact Nat.le_succ _
  case elements =>
    intro id hlt hid
    exact Document.element?_eq_of_node? (Document.node?_adopt_ne hid (Nat.ne_of_lt hlt))
  case new => simp [Document.element?, Document.content?, Document.node?_adopt_size he]

end KeyedDom

end KeyedRender

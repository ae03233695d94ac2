import KeyedRender.Proofs.Document.Tree
import Mathlib.Data.List.Perm.Basic

/-!
# Trees under change

The three ways in which a child list changes: it is rearranged, it gets a new node, or some of
its nodes are taken off and erased. Each keeps a document a tree.
-/
namespace KeyedRender.Document

variable {d : Document}

theorem lt_size_of_element? {id : Nat} {e : Element} (h : d.element? id = some e) : id < d.size := by
  obtain ⟨n, hn⟩ := isLive_iff.1 (isLive_of_element? h)
  exact lt_size_of_node? hn

theorem node?_updateElement_ne {id other : NodeId} (change : Element → Element)
    (h : other ≠ id) : (d.updateElement id change).node? other = d.node? other := by
  unfold updateElement
  split
  · rw [node?_setContent, if_neg h]
  · rfl

@[simp] theorem isLive_updateElement (d : Document) (id other : NodeId)
    (change : Element → Element) : (d.updateElement id change).isLive other = d.isLive other := by
  unfold updateElement
  split
  · simp only [isLive, node?_setContent]
    split
    · next h => subst h; cases d.node? other <;> rfl
    · rfl
  · rfl

theorem children_updateElement (d : Document) (id other : NodeId) {change : Element → Element}
    (h : ∀ e, (change e).children = e.children) :
    (d.updateElement id change).children other = d.children other := by
  simp only [children, element?_updateElement]
  split
  · next hid => subst hid; cases d.element? other <;> simp [h]
  · rfl

theorem children_setChildren_self {id : NodeId} {e : Element} (he : d.element? id = some e)
    (l : List NodeId) : (d.setChildren id l).children id = l := by
  rw [children_setChildren, if_pos ⟨rfl, by rw [he]; rfl⟩]

theorem children_setChildren_ne {id other : NodeId} (h : other ≠ id) (l : List NodeId) :
    (d.setChildren id l).children other = d.children other := by
  rw [children_setChildren, if_neg fun hc => h hc.1]

theorem element?_setChildren {id : NodeId} {e : Element} (he : d.element? id = some e)
    (l : List NodeId) : (d.setChildren id l).element? id = some { e with children := l } := by
  rw [setChildren, element?_updateElement, if_pos rfl, he]
  rfl

theorem isSome_element?_setChildren (d : Document) (id other : NodeId) (l : List NodeId) :
    ((d.setChildren id l).element? other).isSome = (d.element? other).isSome := by
  rw [setChildren, element?_updateElement]
  split
  · next h => subst h; cases d.element? other <;> rfl
  · rfl

theorem element?_setContent_ne {id other : NodeId} {content : Content} (h : other ≠ id) :
    (d.setContent id content).element? other = d.element? other := by
  simp only [element?, content?, node?_setContent, if_neg h]

def ChangesBelow (d : Document) (top : NodeId) (d' : Document) : Prop :=
  ∀ id : Nat, id < d.size → ¬ d.Below top id → d'.node? id = d.node? id

theorem ChangesBelow.updateElement (d : Document) (id : NodeId) (change : Element → Element) :
    d.ChangesBelow id (d.updateElement id change) := fun _ _ hb =>
  node?_updateElement_ne change fun h => hb (h ▸ .self)

theorem ChangesBelow.setChildren (d : Document) (id : NodeId) (l : List NodeId) :
    d.ChangesBelow id (d.setChildren id l) := ChangesBelow.updateElement d id _

theorem SameShape.updateElement (d : Document) (id : NodeId) {change : Element → Element}
    (h : ∀ e, (change e).children = e.children) : SameShape d (d.updateElement id change) :=
  ⟨fun _ => isLive_updateElement .., fun _ => parent?_updateElement ..,
    fun other => children_updateElement d id other h⟩

theorem element?_of_isComment {id : NodeId} (h : d.isComment id = true) : d.element? id = none := by
  unfold isComment at h
  split at h
  · next hc => simp [element?, hc]
  · cases h

@[simp] theorem size_setComment (d : Document) (id : NodeId) (value : String) :
    (d.setComment id value).size = d.size := by
  rw [Document.setComment]
  split <;> simp

@[simp] theorem element?_setComment (d : Document) (id other : NodeId) (value : String) :
    (d.setComment id value).element? other = d.element? other := by
  rw [Document.setComment]
  split
  · next hid =>
    by_cases hother : other = id
    · subst hother
      rw [element?_of_isComment hid, element?, content?, node?_setContent, if_pos rfl]
      cases d.node? other <;> rfl
    · exact element?_setContent_ne hother
  · rfl

theorem children_of_isComment {id : NodeId} (h : d.isComment id = true) : d.children id = [] := by
  simp [children, element?_of_isComment h]

theorem SameShape.setContent {id : NodeId} {content : Content} (hid : d.children id = [])
    (hc : ∀ e, content = .element e → e.children = []) :
    SameShape d (d.setContent id content) where
  live other := by
    simp only [isLive, node?_setContent]
    split
    · next h => subst h; cases d.node? other <;> rfl
    · rfl
  parent other := parent?_setContent ..
  children other := by
    by_cases h : other = id
    · subst h
      rw [hid]
      cases hn : d.node? other with
      | none => exact children_of_node?_eq_none (by rw [node?_setContent, if_pos rfl, hn]; rfl)
      | some n =>
        cases content with
        | element e =>
          simpa [Document.children, element?, content?, node?_setContent, hn] using hc e rfl
        | text value => simp [Document.children, element?, content?, node?_setContent, hn]
        | comment value => simp [Document.children, element?, content?, node?_setContent, hn]
    · exact children_eq_of_node? (by rw [node?_setContent, if_neg h])

theorem SameShape.setComment (d : Document) (id : NodeId) (value : String) :
    SameShape d (d.setComment id value) := by
  unfold Document.setComment
  split
  · next h =>
    exact .setContent (children_of_isComment h) (by simp)
  · exact ⟨fun _ => rfl, fun _ => rfl, fun _ => rfl⟩

theorem IsTree.setChildren (h : d.IsTree) {p : NodeId} {e : Element} (he : d.element? p = some e)
    {keep rest : List NodeId} (hl : (d.children p).Perm (keep ++ rest)) :
    (d.setChildren p keep).TreeBut rest := by
  have hparent : ∀ id, (d.setChildren p keep).parent? id = d.parent? id :=
    fun id => parent?_updateElement ..
  have hnodup : (keep ++ rest).Nodup := hl.nodup_iff.1 (TreeBut.nodup h p)
  have hdisj : ∀ {id}, id ∈ keep → id ∉ rest := fun hk hr =>
    (List.nodup_append.1 hnodup).2.2 _ hk _ hr rfl
  have mem_rest : ∀ {id}, id ∈ rest → d.parent? id = some p := fun hr =>
    h.parent (hl.mem_iff.2 (List.mem_append_right _ hr))
  refine ⟨?older, ?parent, ?listed, ?rooted⟩
  case older =>
    intro id q hq
    rw [hparent] at hq
    exact h.older hq
  case parent =>
    intro id q hq
    rw [hparent]
    by_cases hqp : q = p
    · subst hqp
      rw [children_setChildren_self he] at hq
      exact ⟨h.parent (hl.mem_iff.2 (List.mem_append_left _ hq)), hdisj hq⟩
    · rw [children_setChildren_ne hqp] at hq
      have hpar := h.parent hq
      exact ⟨hpar, fun hr => hqp (Option.some.inj (hpar.symm.trans (mem_rest hr)))⟩
  case listed =>
    intro id q hq hloose
    rw [hparent] at hq
    have hcount := h.count_eq_one hq
    by_cases hqp : q = p
    · subst hqp
      rw [children_setChildren_self he]
      rw [hl.count_eq, List.count_append, List.count_eq_zero.2 hloose] at hcount
      exact hcount
    · rw [children_setChildren_ne hqp, hcount]
  case rooted =>
    intro id hlive hne
    rw [hparent]
    exact TreeBut.rooted h (by simpa [Document.setChildren] using hlive) hne

theorem IsTree.rearrange (h : d.IsTree) {p : NodeId} {e : Element} (he : d.element? p = some e)
    {l : List NodeId} (hl : (d.children p).Perm l) : (d.setChildren p l).IsTree :=
  h.setChildren he (by simpa using hl)

theorem IsTree.prune (h : d.IsTree) {p : NodeId} {e : Element} (he : d.element? p = some e)
    {keep rest : List NodeId} (hl : (d.children p).Perm (keep ++ rest)) :
    ((d.setChildren p keep).dropAll rest).IsTree :=
  (h.setChildren he hl).dropAll

theorem IsTree.perm_without (h : d.IsTree) {p id : NodeId} (hid : id ∈ d.children p) :
    (d.children p).Perm ((d.children p).filter (· ≠ id) ++ [id]) := by
  have hnodup := TreeBut.nodup h p
  have herase : (d.children p).filter (· ≠ id) = (d.children p).erase id := by
    rw [hnodup.erase_eq_filter]
    exact List.filter_congr fun a _ => by by_cases ha : a = id <;> simp [ha]
  rw [herase]
  exact (List.perm_cons_erase hid).trans (List.perm_append_singleton ..).symm

theorem children_of_new (name key : String) (e : Element)
    (h : Content.element (.new name key) = .element e) : e.children = [] := by
  cases h
  rfl

def adopt (d : Document) (p : NodeId) (position : Nat) (content : Content) : Document :=
  (d.add (some p) content).2.setChildren p ((d.children p).insertIdx position d.size)

section Adopt

variable {p : Nat} {e : Element} {position : Nat} {content : Content}

theorem element?_add (d : Document) (parent : Option NodeId) (content : Content) {id : NodeId}
    (h : id ≠ d.size) : (d.add parent content).2.element? id = d.element? id := by
  simp only [element?, content?, node?_add, if_neg h]

theorem node?_adopt_ne {id : NodeId} (hp : id ≠ p)
    (hs : id ≠ d.size) : (d.adopt p position content).node? id = d.node? id := by
  unfold adopt Document.setChildren
  rw [node?_updateElement_ne _ hp, node?_add, if_neg hs]

theorem ChangesBelow.adopt : d.ChangesBelow p (d.adopt p position content) := fun _ hlt hb =>
  node?_adopt_ne (fun h => hb (h ▸ .self)) (Nat.ne_of_lt hlt)

theorem node?_adopt_size (he : d.element? p = some e) :
    (d.adopt p position content).node? d.size = some ⟨some p, content⟩ := by
  have hne : d.size ≠ p := Nat.ne_of_gt (lt_size_of_element? he)
  unfold adopt Document.setChildren
  rw [node?_updateElement_ne _ hne, node?_add, if_pos rfl]

theorem element?_adopt (he : d.element? p = some e) :
    (d.adopt p position content).element? p =
      some { e with children := e.children.insertIdx position d.size } := by
  unfold adopt Document.setChildren
  rw [element?_updateElement, if_pos rfl, element?_add _ _ _ (Nat.ne_of_lt (lt_size_of_element? he)),
    he, children_of_element? he]
  rfl

@[simp] theorem size_adopt (d : Document) (p : NodeId) (position : Nat) (content : Content) :
    (d.adopt p position content).size = d.size + 1 := by
  simp [adopt, Document.setChildren]

theorem parent?_adopt (d : Document) (p : NodeId) (position : Nat) (content : Content)
    (id : NodeId) :
    (d.adopt p position content).parent? id = if id = d.size then some p else d.parent? id := by
  unfold adopt Document.setChildren
  rw [parent?_updateElement, parent?, node?_add]
  split <;> rfl

theorem isLive_adopt (d : Document) (p : NodeId) (position : Nat) (content : Content)
    (id : NodeId) :
    (d.adopt p position content).isLive id = (decide (id = d.size) || d.isLive id) := by
  unfold adopt Document.setChildren
  rw [isLive_updateElement, isLive, node?_add]
  by_cases h : id = d.size <;> simp [h, isLive]

theorem children_adopt (he : d.element? p = some e)
    (hc : ∀ e', content = .element e' → e'.children = []) (id : NodeId) :
    (d.adopt p position content).children id =
      if id = p then e.children.insertIdx position d.size else d.children id := by
  by_cases hp : id = p
  · subst hp
    rw [if_pos rfl, children_of_element? (element?_adopt he)]
  · rw [if_neg hp]
    by_cases hs : id = d.size
    · subst hs
      rw [children_of_node?_eq_none (node?_of_size_le (Nat.le_refl _))]
      cases content with
      | element e' =>
        simpa [children, element?, content?, node?_adopt_size he] using hc e' rfl
      | text value => simp [children, element?, content?, node?_adopt_size he]
      | comment value => simp [children, element?, content?, node?_adopt_size he]
    · exact children_eq_of_node? (node?_adopt_ne hp hs)

theorem IsTree.adopt (h : d.IsTree) (he : d.element? p = some e)
    (hc : ∀ e', content = .element e' → e'.children = []) (hpos : position ≤ e.children.length) :
    (d.adopt p position content).IsTree := by
  -- The new node is named after the size of the table, so that no list can name it before.
  have hnew : ∀ q, d.size ∉ d.children q := fun q hq => by
    obtain ⟨n, hn⟩ := isLive_iff.1 (h.isLive_child hq)
    exact absurd (lt_size_of_node? hn) (Nat.lt_irrefl _)
  have hperm : (e.children.insertIdx position d.size).Perm (d.size :: e.children) :=
    List.perm_insertIdx _ _ hpos
  refine ⟨?older, ?parent, ?listed, ?rooted⟩
  case older =>
    intro id q hq
    rw [parent?_adopt] at hq
    split at hq
    · next hid =>
      cases hq
      exact hid ▸ lt_size_of_element? he
    · exact h.older hq
  case parent =>
    intro id q hq
    refine ⟨?_, List.not_mem_nil⟩
    rw [children_adopt he hc] at hq
    rw [parent?_adopt]
    split at hq
    · next hqp =>
      subst hqp
      split
      · rfl
      · next hid =>
        rw [← children_of_element? he] at hperm
        exact h.parent ((List.mem_cons.1 (hperm.mem_iff.1
          (by rwa [children_of_element? he]))).resolve_left hid)
    · split
      · next hid => exact absurd (hid ▸ hq) (hnew q)
      · exact h.parent hq
  case listed =>
    intro id q hq _
    rw [parent?_adopt] at hq
    rw [children_adopt he hc]
    split at hq
    · next hid =>
      cases hq
      rw [if_pos rfl, hperm.count_eq, hid, List.count_cons_self,
        ← children_of_element? he, List.count_eq_zero.2 (hnew p)]
    · next hid =>
      have hcount := h.count_eq_one hq
      split
      · next hqp =>
        subst hqp
        rw [hperm.count_eq, List.count_cons_of_ne (Ne.symm hid), ← children_of_element? he, hcount]
      · exact hcount
  case rooted =>
    intro id hlive hne
    rw [parent?_adopt]
    split
    · rfl
    · next hid =>
      rw [isLive_adopt] at hlive
      exact TreeBut.rooted h (by simpa [hid] using hlive) hne

end Adopt

end KeyedRender.Document

import KeyedRender.Proofs.Document.Erasure
import Mathlib.Data.List.Nodup

/-!
# Documents that are trees

In a tree every node but the root is listed once, by its parent, and parents are older than their
children. Rearranging a child list, adding a new child and erasing what a list no longer names
keep a document a tree.
-/
namespace KeyedRender.Document

variable {d d' : Document}

/-- A tree but for some loose nodes, which no child list names. -/
structure TreeBut (loose : List NodeId) (d : Document) : Prop where
  older : ∀ {id p : Nat}, d.parent? id = some p → p < id
  parent : ∀ {id p : NodeId}, id ∈ d.children p → d.parent? id = some p ∧ id ∉ loose
  listed : ∀ {id p : NodeId}, d.parent? id = some p → id ∉ loose → (d.children p).count id = 1
  rooted : ∀ {id : NodeId}, d.isLive id = true → id ≠ 0 → (d.parent? id).isSome

def IsTree (d : Document) : Prop := d.TreeBut []

theorem isLive_iff {id : NodeId} : d.isLive id = true ↔ ∃ n, d.node? id = some n := by
  simp [isLive, Option.isSome_iff_exists]

theorem isLive_of_parent? {id p : NodeId} (h : d.parent? id = some p) : d.isLive id = true := by
  cases hn : d.node? id with
  | none => simp [parent?, hn] at h
  | some n => simp [isLive, hn]

theorem isLive_of_element? {id : NodeId} {e : Element} (h : d.element? id = some e) :
    d.isLive id = true := by
  cases hn : d.node? id with
  | none => simp [element?, content?, hn] at h
  | some n => simp [isLive, hn]

theorem children_of_element? {id : NodeId} {e : Element} (h : d.element? id = some e) :
    d.children id = e.children := by
  simp [children, h]

theorem element?_of_mem_children {id c : NodeId} (h : c ∈ d.children id) :
    ∃ e, d.element? id = some e ∧ c ∈ e.children := by
  cases he : d.element? id with
  | none => simp [children, he] at h
  | some e => exact ⟨e, rfl, by rwa [children_of_element? he] at h⟩

namespace TreeBut

variable {loose : List NodeId}

theorem pointsLater (h : d.TreeBut loose) : d.PointsLater :=
  fun _ _ hc => h.older (h.parent hc).1

theorem nodup (h : d.TreeBut loose) (p : NodeId) : (d.children p).Nodup := by
  refine List.nodup_iff_count_le_one.2 fun id => ?_
  by_cases hid : id ∈ d.children p
  · obtain ⟨hp, hl⟩ := h.parent hid
    exact Nat.le_of_eq (h.listed hp hl)
  · rw [List.count_eq_zero.2 hid]
    exact Nat.zero_le 1

theorem parent_unique (h : d.TreeBut loose) {id p q : NodeId} (hp : id ∈ d.children p)
    (hq : id ∈ d.children q) : p = q :=
  Option.some.inj ((h.parent hp).1.symm.trans (h.parent hq).1)

theorem dropAll (h : d.TreeBut loose) : (d.dropAll loose).IsTree := by
  have erases := dropAll_erasesTo h.pointsLater loose
  have kept : ∀ {n}, (d.dropAll loose).isLive n = true → ¬ d.BelowAny loose n := by
    intro n hn hb
    rw [isLive, (erases.2 n).1 hb] at hn
    cases hn
  have same : ∀ {n}, ¬ d.BelowAny loose n → (d.dropAll loose).node? n = d.node? n :=
    fun hn => (erases.2 _).2 hn
  have sameParent : ∀ {n}, ¬ d.BelowAny loose n → (d.dropAll loose).parent? n = d.parent? n :=
    fun hn => by rw [parent?, same hn, parent?]
  refine ⟨?older, ?parent, ?listed, ?rooted⟩
  case older =>
    intro id p hp
    rw [sameParent (kept (isLive_of_parent? hp))] at hp
    exact h.older hp
  case parent =>
    intro id p hid
    have hp : ¬ d.BelowAny loose p := kept (isLive_of_mem_children hid)
    rw [children_eq_of_node? (same hp)] at hid
    obtain ⟨hpar, hloose⟩ := h.parent hid
    -- A child of a node that is kept is erased only if it is loose itself.
    have hkeep : ¬ d.BelowAny loose id := by
      rintro ⟨top, htop, hb⟩
      cases hb with
      | self => exact hloose htop
      | child hm hc => exact hp ⟨top, htop, h.parent_unique hc hid ▸ hm⟩
    exact ⟨(sameParent hkeep).trans hpar, List.not_mem_nil⟩
  case listed =>
    intro id p hp _
    have hkeep := kept (isLive_of_parent? hp)
    rw [sameParent hkeep] at hp
    have hcount := h.listed hp fun hl => hkeep ⟨id, hl, .self⟩
    have hmem : id ∈ d.children p := List.count_pos_iff.1 (by omega)
    have hpkeep : ¬ d.BelowAny loose p := by
      rintro ⟨top, htop, hb⟩
      exact hkeep ⟨top, htop, .child hb hmem⟩
    rw [children_eq_of_node? (same hpkeep), hcount]
  case rooted =>
    intro id hlive hne
    have hkeep := kept hlive
    rw [sameParent hkeep]
    refine h.rooted ?_ hne
    rw [isLive, ← same hkeep]
    exact hlive

end TreeBut

namespace IsTree

theorem older (h : d.IsTree) {id p : Nat} (hp : d.parent? id = some p) : p < id :=
  TreeBut.older h hp

theorem parent (h : d.IsTree) {id p : NodeId} (hid : id ∈ d.children p) : d.parent? id = some p :=
  (TreeBut.parent h hid).1

theorem count_eq_one (h : d.IsTree) {id p : NodeId} (hp : d.parent? id = some p) :
    (d.children p).count id = 1 :=
  TreeBut.listed h hp List.not_mem_nil

theorem mem_children (h : d.IsTree) {id p : NodeId} (hp : d.parent? id = some p) :
    id ∈ d.children p :=
  List.count_pos_iff.1 (by rw [h.count_eq_one hp]; exact Nat.one_pos)

theorem lt (h : d.IsTree) {id p : Nat} (hid : id ∈ d.children p) : p < id := h.older (h.parent hid)

theorem isLive_child (h : d.IsTree) {id p : NodeId} (hid : id ∈ d.children p) :
    d.isLive id = true :=
  isLive_of_parent? (h.parent hid)

theorem below_parent (h : d.IsTree) {top id p : NodeId} (hb : d.Below top id) (hne : id ≠ top)
    (hp : d.parent? id = some p) : d.Below top p := by
  cases hb with
  | self => exact absurd rfl hne
  | child hm hc => exact TreeBut.parent_unique h hc (h.mem_children hp) ▸ hm

theorem below_or_below (h : d.IsTree) {a b n : NodeId} (ha : d.Below a n) (hb : d.Below b n) :
    d.Below a b ∨ d.Below b a := by
  induction hb with
  | self => exact .inl ha
  | @child m c hm hc ih =>
    by_cases hca : c = a
    · exact .inr (hca ▸ .child hm hc)
    · exact ih (h.below_parent ha hca (h.parent hc))

theorem not_below_siblings (h : d.IsTree) {a b p n : NodeId} (ha : a ∈ d.children p)
    (hb : b ∈ d.children p) (hab : a ≠ b) (hna : d.Below a n) : ¬ d.Below b n := by
  have outside : ∀ {x y : NodeId}, x ∈ d.children p → y ∈ d.children p → x ≠ y →
      ¬ d.Below x y := by
    intro x y hx hy hxy hbelow
    have hxp := h.below_parent hbelow (Ne.symm hxy) (h.parent hy)
    exact absurd (h.lt hx) (Nat.not_lt.2 (hxp.le (TreeBut.pointsLater h)))
  intro hnb
  rcases h.below_or_below hna hnb with hc | hc
  · exact outside ha hb hab hc
  · exact outside hb ha (Ne.symm hab) hc

end IsTree

@[simp] theorem children_single (name : String) (id : NodeId) : (single name).children id = [] := by
  by_cases h : id = 0 <;> simp [children, element?, content?, node?_single, h, Element.new]

theorem isTree_single (name : String) : (single name).IsTree := by
  have hparent : ∀ id, (single name).parent? id = none := by
    intro id
    by_cases h : id = 0 <;> simp [parent?, node?_single, h]
  refine ⟨fun hp => ?_, fun hid => ?_, fun hp => ?_, fun hlive hne => ?_⟩
  · simp [hparent] at hp
  · simp at hid
  · simp [hparent] at hp
  · simp [isLive, node?_single, hne] at hlive

structure SameShape (d d' : Document) : Prop where
  live : ∀ id, d'.isLive id = d.isLive id
  parent : ∀ id, d'.parent? id = d.parent? id
  children : ∀ id, d'.children id = d.children id

theorem IsTree.congr (h : d.IsTree) (hs : SameShape d d') : d'.IsTree where
  older hp := h.older (by rwa [hs.parent] at hp)
  parent hid := by
    rw [hs.children] at hid
    exact ⟨(hs.parent _).trans (h.parent hid), List.not_mem_nil⟩
  listed hp _ := by
    rw [hs.parent] at hp
    rw [hs.children, h.count_eq_one hp]
  rooted hl hne := by
    rw [hs.live] at hl
    rw [hs.parent]
    exact TreeBut.rooted h hl hne

end KeyedRender.Document

import KeyedRender.Proofs.Document.Change

/-!
# Edits below a node

An edit below a node leaves everything else as it was: what it takes away was below the node, and
what a child list gets is new. The node itself keeps its name, its key and its slot. A fence is
weaker: comments outside of it may be rewritten.
-/
namespace KeyedRender

structure Element.SameHead (e e' : Element) : Prop where
  name : e'.name = e.name
  key : e'.key = e.key
  slot : e'.record.slot = e.record.slot

theorem Element.SameHead.refl (e : Element) : e.SameHead e := ⟨rfl, rfl, rfl⟩

theorem Element.SameHead.trans {e e' e'' : Element} (h : e.SameHead e') (h' : e'.SameHead e'') :
    e.SameHead e'' :=
  ⟨h'.name.trans h.name, h'.key.trans h.key, h'.slot.trans h.slot⟩

namespace Document

variable {d d' d'' : Document} {top p : NodeId}

structure Gains (d d' : Document) : Prop where
  size : d.size ≤ d'.size
  grown : ∀ p c : Nat, c ∈ d'.children p → c ∈ d.children p ∨ d.size ≤ c

theorem Gains.refl (d : Document) : d.Gains d := ⟨Nat.le_refl _, fun _ _ hc => .inl hc⟩

theorem Gains.trans (h : d.Gains d') (h' : d'.Gains d'') : d.Gains d'' := by
  have hsize := h.size
  have hsize' := h'.size
  refine ⟨by omega, fun q c hc => ?_⟩
  rcases h'.grown q c hc with hold | hnew
  · exact h.grown q c hold
  · exact .inr (by omega)

theorem Gains.below_or_new (h : d.Gains d') {id : Nat} (hid : d'.Below top id) :
    d.Below top id ∨ d.size ≤ id := by
  induction hid with
  | self => exact .inl .self
  | @child p c _ hc ih =>
    rcases h.grown p c hc with hold | hnew
    · rcases ih with hbelow | hnew
      · exact .inl (.child hbelow hold)
      · rw [children_of_node?_eq_none (node?_of_size_le hnew)] at hold
        cases hold
    · exact .inr hnew

def KeepsHead (d : Document) (top : NodeId) (d' : Document) : Prop :=
  ∀ e, d.element? top = some e → ∃ e', d'.element? top = some e' ∧ e.SameHead e'

theorem KeepsHead.of_element? (h : d'.element? top = d.element? top) : d.KeepsHead top d' :=
  fun e he => ⟨e, h.trans he, .refl e⟩

theorem KeepsHead.trans (h : d.KeepsHead top d') (h' : d'.KeepsHead top d'') :
    d.KeepsHead top d'' := by
  intro e he
  obtain ⟨e', he', hhead⟩ := h e he
  obtain ⟨e'', he'', hhead'⟩ := h' e' he'
  exact ⟨e'', he'', hhead.trans hhead'⟩

structure EditsBelow (d : Document) (top : NodeId) (d' : Document) : Prop extends Gains d d' where
  changes : d.ChangesBelow top d'
  head : d.KeepsHead top d'

theorem element?_eq_of_node? {id : NodeId} (h : d'.node? id = d.node? id) :
    d'.element? id = d.element? id := by
  simp only [element?, content?, h]

namespace EditsBelow

theorem refl (d : Document) (top : NodeId) : d.EditsBelow top d :=
  ⟨.refl d, fun _ _ _ => rfl, .of_element? rfl⟩

theorem element?_outside (h : d.EditsBelow top d') {id : NodeId} (hid : id < d.size)
    (hout : ¬ d.Below top id) : d'.element? id = d.element? id :=
  element?_eq_of_node? (h.changes id hid hout)

theorem keepsHead (h : d.EditsBelow p d') (hd : d.PointsLater) (hp : d.Below top p) :
    d.KeepsHead top d' := by
  by_cases heq : p = top
  · exact heq ▸ h.head
  · intro e he
    have hout : ¬ d.Below p top := fun hb => heq (Nat.le_antisymm (hb.le hd) (hp.le hd))
    exact KeepsHead.of_element? (h.element?_outside (lt_size_of_element? he) hout) e he

theorem trans (h : d.EditsBelow top d') (hd : d'.PointsLater) (hp : d'.Below top p)
    (h' : d'.EditsBelow p d'') : d.EditsBelow top d'' := by
  refine ⟨h.toGains.trans h'.toGains, fun id hid hout => ?_, h.head.trans (h'.keepsHead hd hp)⟩
  have hsize := h.size
  have hout' : ¬ d'.Below p id := fun hb => (h.below_or_new (hp.trans hb)).elim hout (by omega)
  rw [h'.changes id (by omega) hout', h.changes id hid hout]

theorem updateElement (d : Document) (top : NodeId) {change : Element → Element}
    (hchildren : ∀ e, (change e).children = e.children)
    (hhead : ∀ e : Element, e.SameHead (change e)) :
    d.EditsBelow top (d.updateElement top change) := by
  refine ⟨⟨Nat.le_of_eq (size_updateElement ..).symm, fun p c hc => .inl ?_⟩,
    ChangesBelow.updateElement d top change, fun e he => ?_⟩
  · rwa [children_updateElement d top p hchildren] at hc
  · exact ⟨change e, by rw [element?_updateElement, if_pos rfl, he]; rfl, hhead e⟩

theorem setChildren {e : Element} (he : d.element? top = some e) {l : List NodeId}
    (hl : l ⊆ e.children) : d.EditsBelow top (d.setChildren top l) := by
  refine ⟨⟨Nat.le_of_eq (size_updateElement ..).symm, fun p c hc => .inl ?_⟩, .setChildren d top l,
    fun e₀ he₀ => ?_⟩
  · by_cases hp : p = top
    · subst hp
      rw [children_setChildren_self he] at hc
      rw [children_of_element? he]
      exact hl hc
    · rwa [children_setChildren_ne hp] at hc
  · obtain rfl := Option.some.inj (he.symm.trans he₀)
    exact ⟨_, element?_setChildren he l, rfl, rfl, rfl⟩

theorem adopt {e : Element} (he : d.element? top = some e) {content : Content}
    (hcontent : ∀ e', content = .element e' → e'.children = []) {position : Nat}
    (hposition : position ≤ e.children.length) :
    d.EditsBelow top (d.adopt top position content) := by
  refine ⟨⟨by simp, fun p c hc => ?_⟩, .adopt, fun e₀ he₀ => ?_⟩
  · rw [children_adopt he hcontent] at hc
    split at hc
    · next hp =>
      subst hp
      rw [children_of_element? he]
      rcases (List.mem_insertIdx hposition).1 hc with rfl | hold
      · exact .inr (Nat.le_refl _)
      · exact .inl hold
    · exact .inl hc
  · obtain rfl := Option.some.inj (he.symm.trans he₀)
    exact ⟨_, element?_adopt he, rfl, rfl, rfl⟩

theorem erasesTo {tops : List NodeId} (h : d.EditsBelow top d') (herase : d'.ErasesTo tops d'')
    (hbelow : ∀ c ∈ tops, d.Below top c) (hfewer : ∀ p, d'.children p ⊆ d.children p)
    (hhead : d.KeepsHead top d'') : d.EditsBelow top d'' := by
  have hsize := h.size
  refine ⟨⟨by rw [herase.1]; exact hsize, fun p c hc => ?_⟩, fun id hid hout => ?_, hhead⟩
  · exact .inl (hfewer p (herase.children_subset p hc))
  · have hkept : ¬ d'.BelowAny tops id := by
      rintro ⟨c, hc, hb⟩
      exact hout ((hbelow c hc).trans (hb.mono hfewer))
    rw [(herase.2 id).2 hkept, h.changes id hid hout]

end EditsBelow

def Beneath (d : Document) (top id : NodeId) : Prop := id ≠ top ∧ (d.Below top id ∨ d.size ≤ id)

structure Fenced (d : Document) (top : NodeId) (d' : Document) : Prop extends Gains d d' where
  outside : ∀ id < d.size, ¬ d.Below top id → d'.element? id = d.element? id
  head : d.KeepsHead top d'

namespace Fenced

theorem refl (d : Document) (top : NodeId) : d.Fenced top d :=
  ⟨.refl d, fun _ _ _ => rfl, .of_element? rfl⟩

theorem edit (h : d.Fenced top d') (hd : d'.PointsLater) (hp : d'.Below top p)
    (h' : d'.EditsBelow p d'') : d.Fenced top d'' := by
  refine ⟨h.toGains.trans h'.toGains, fun id hid hout => ?_, h.head.trans (h'.keepsHead hd hp)⟩
  have hlt : id < d'.size := Nat.lt_of_lt_of_le hid h.size
  have hout' : ¬ d'.Below p id := fun hb => (h.below_or_new (hp.trans hb)).elim hout (by omega)
  rw [h'.element?_outside hlt hout', h.outside id hid hout]

theorem beneath_child (h : d.Fenced top d') (hd : d'.IsTree) {c : NodeId} (hp : d'.Below top p)
    (hc : c ∈ d'.children p) : d.Beneath top c := by
  have hle := hp.le (TreeBut.pointsLater hd)
  exact ⟨Nat.ne_of_gt (Nat.lt_of_le_of_lt hle (hd.lt hc)), h.below_or_new (.child hp hc)⟩

theorem updateRecord (h : d.Fenced top d') (hp : d.Beneath top p)
    (change : NodeRecord → NodeRecord) : d.Fenced top (d'.updateRecord p change) := by
  have hother : ∀ id, id ≠ p → (d'.updateRecord p change).element? id = d'.element? id :=
    fun id hid => by rw [Document.updateRecord, element?_updateElement, if_neg hid]
  refine ⟨⟨?_, fun q c hc => ?_⟩, fun id hid hout => ?_,
    h.head.trans (.of_element? (hother top (Ne.symm hp.1)))⟩
  · rw [Document.updateRecord, size_updateElement]
    exact h.size
  · have hchildren : (d'.updateRecord p change).children q = d'.children q :=
      children_updateElement d' p q fun _ => rfl
    exact h.grown q c (hchildren ▸ hc)
  · have hidp : id ≠ p := by
      rintro rfl
      exact hp.2.elim hout (by omega)
    rw [hother id hidp, h.outside id hid hout]

theorem setComment (h : d.Fenced top d') (id : NodeId) (value : String) :
    d.Fenced top (d'.setComment id value) where
  size := by
    rw [size_setComment]
    exact h.size
  grown p c hc := by
    rw [children, element?_setComment] at hc
    exact h.grown p c hc
  outside other hlt hout := by rw [element?_setComment, h.outside other hlt hout]
  head := h.head.trans (.of_element? (element?_setComment ..))

end Fenced

end Document

end KeyedRender

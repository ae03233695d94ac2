import KeyedRender.Proofs.Target.Operations

/-!
# Calls keep a target sound

Every call that a renderer makes succeeds on a sound target and leaves it sound. The only child
list that changes is the one of the innermost element, or it is the list a comment is added to.
-/
namespace KeyedRender.KeyedDom

open Document (Below)

variable {t : KeyedDom} {d : Document} {e : Element} {f : Frame} {below : List Frame}

section Pruned

theorem pruned_erasesTo (hd : d.IsTree) (he : d.element? f.parent = some e) :
    (d.setChildren f.parent ((d.children f.parent).take f.index)).ErasesTo
      ((d.children f.parent).drop f.index) (pruned d f) := by
  have hl : (d.children f.parent).Perm
      ((d.children f.parent).take f.index ++ (d.children f.parent).drop f.index) := by
    rw [List.take_append_drop]
  exact Document.dropAll_erasesTo (hd.setChildren he hl).pointsLater _

theorem isTree_pruned (hd : d.IsTree) (he : d.element? f.parent = some e) : (pruned d f).IsTree :=
  hd.prune he (by rw [List.take_append_drop])

theorem below_of_below_setChildren {p top id : NodeId} (he : d.element? p = some e)
    {l : List NodeId} (hl : l ⊆ d.children p) (h : (d.setChildren p l).Below top id) :
    d.Below top id := by
  refine h.mono fun m => ?_
  by_cases hm : m = p
  · subst hm
    rwa [Document.children_setChildren_self he]
  · rw [Document.children_setChildren_ne hm]
    exact List.Subset.refl _

theorem below_of_belowAny_drop (he : d.element? f.parent = some e) {id : NodeId}
    (h : (d.setChildren f.parent ((d.children f.parent).take f.index)).BelowAny
      ((d.children f.parent).drop f.index) id) :
    ∃ c ∈ (d.children f.parent).drop f.index, d.Below c id := by
  obtain ⟨c, hc, hb⟩ := h
  exact ⟨c, hc, below_of_below_setChildren he (List.take_subset _ _) hb⟩

theorem node?_pruned (hd : d.IsTree) (he : d.element? f.parent = some e) {id : NodeId}
    (hid : ¬ d.Below f.parent id) : (pruned d f).node? id = d.node? id := by
  have hne : id ≠ f.parent := fun h => hid (h ▸ .self)
  rw [((pruned_erasesTo hd he).2 id).2, Document.setChildren, Document.node?_updateElement_ne _ hne]
  intro hb
  obtain ⟨c, hc, hcid⟩ := below_of_belowAny_drop he hb
  exact hid (.head (List.mem_of_mem_drop hc) hcid)

theorem element?_pruned (hd : d.IsTree) (he : d.element? f.parent = some e) :
    (pruned d f).element? f.parent = some { e with children := e.children.take f.index } := by
  have hkept : ¬ (d.setChildren f.parent ((d.children f.parent).take f.index)).BelowAny
      ((d.children f.parent).drop f.index) f.parent := by
    intro hb
    obtain ⟨c, hc, hcp⟩ := below_of_belowAny_drop he hb
    exact absurd (hd.lt (List.mem_of_mem_drop hc))
      (Nat.not_lt.2 (hcp.le (Document.TreeBut.pointsLater hd)))
  have hnode := ((pruned_erasesTo hd he).2 f.parent).2 hkept
  simp only [Document.element?, Document.content?, hnode]
  have hset := Document.element?_updateElement d f.parent f.parent
    fun e => { e with children := (d.children f.parent).take f.index }
  rw [if_pos rfl, he, Option.map_some] at hset
  rw [← Document.children_of_element? he]
  exact hset

theorem children_pruned (hd : d.IsTree) (he : d.element? f.parent = some e) :
    (pruned d f).children f.parent = e.children.take f.index :=
  Document.children_of_element? (element?_pruned hd he)

theorem changesBelow_pruned (hd : d.IsTree) (he : d.element? f.parent = some e) :
    d.ChangesBelow f.parent (pruned d f) := fun _ _ hid => node?_pruned hd he hid

end Pruned

theorem not_below_of_lt (hd : d.IsTree) {top id : Nat} (h : id < top) : ¬ d.Below top id :=
  fun hb => absurd (hb.le (Document.TreeBut.pointsLater hd)) (Nat.not_le.2 h)

section Innermost

variable {d' : Document}

theorem framed_innermost (hd : d.IsTree) (h : Framed d (f :: below))
    (hc : d.ChangesBelow f.parent d') {i : Nat} (hi : (Frame.mk f.parent i).Fits d') :
    Framed d' (⟨f.parent, i⟩ :: below) := by
  -- The elements of the outer frames are older than the innermost one, so none is below it.
  have same : ∀ g ∈ below, d'.node? g.parent = d.node? g.parent := by
    intro g hg
    obtain ⟨e, he⟩ := Option.isSome_iff_exists.1 (h.tail.fits g hg).1
    exact hc _ (Document.lt_size_of_element? he) (not_below_of_lt hd (h.parent_lt hd g hg))
  cases h with
  | base => exact .base hi
  | @nested _ g rest _ hpos hg hb =>
    refine .nested hi hpos ?_ (hb.congr_node? same)
    rw [Document.children_eq_of_node? (same g (List.mem_cons_self ..))]
    exact hg

theorem framed_opened (hd : d.IsTree) (h : Framed d (f :: below)) (hc : d.ChangesBelow f.parent d')
    {e' : Element} (he' : d'.element? f.parent = some e') {id : NodeId}
    (hid : e'.children[f.index]? = some id) (hel : (d'.element? id).isSome) :
    Framed d' (⟨id, 0⟩ :: { f with index := f.index + 1 } :: below) := by
  have hlt : f.index < e'.children.length := (List.getElem?_eq_some_iff.1 hid).1
  have hchildren := Document.children_of_element? he'
  refine .nested ⟨hel, Nat.zero_le _⟩ (Nat.succ_pos _) ?_ (framed_innermost hd h hc ⟨?_, ?_⟩)
  · rw [hchildren]
    exact hid
  · rw [he']
    rfl
  · rw [hchildren]
    exact hlt

end Innermost

theorem sound_begun (h : t.document.IsTree) {root : NodeId}
    (hroot : (t.document.element? root).isSome) (rule : Key.MatchRule) :
    (t.begun root rule).Sound :=
  ⟨h, .base ⟨hroot, Nat.zero_le _⟩⟩

theorem Sound.openElement (h : t.Sound) (name key : String) :
    ∃ r, t.openElement name key = .ok r ∧ r.2.Sound := by
  cases hf : t.frames with
  | nil => exact ⟨(none, t), by simp [KeyedDom.openElement, hf], h⟩
  | cons f below =>
    obtain ⟨e, he, hindex⟩ := h.current hf
    have hframed : Framed t.document (f :: below) := hf ▸ h.framed
    have hlen : (e.children.take f.index).length = f.index := by simp [hindex]
    rcases t.exists_match_or_forall name key (e.children.drop f.index) with
      ⟨before, id, after, hsplit, hid, hbefore⟩ | hnone
    · have hperm : (t.document.children f.parent).Perm
          (e.children.take f.index ++ id :: (before ++ after)) := by
        rw [Document.children_of_element? he]
        conv_lhs => rw [← List.take_append_drop f.index e.children, hsplit]
        exact .append_left _ List.perm_middle
      have hel : (t.document.element? id).isSome := by
        unfold accepts at hid
        split at hid
        · next he' => rw [he']; rfl
        · cases hid
      refine ⟨_, openElement_found h hf he hsplit hid hbefore, h.tree.rearrange he hperm, ?_⟩
      refine framed_opened h.tree hframed (.setChildren _ _ _)
        (Document.element?_setChildren he _) ?_ ?_
      · simp [hlen]
      · rwa [Document.isSome_element?_setChildren]
    · have hempty := Document.children_of_new name key
      refine ⟨_, openElement_new h hf he hnone, h.tree.adopt he hempty hindex, ?_⟩
      refine framed_opened h.tree hframed .adopt (Document.element?_adopt he) ?_ ?_
      · rw [insertIdx_eq_take_append hindex]
        simp [hlen]
      · simp [Document.element?, Document.content?, Document.node?_adopt_size he]

theorem Sound.closeElement (h : t.Sound) : ∃ r, t.closeElement = .ok r ∧ r.2.Sound := by
  match hf : t.frames with
  | [] => exact ⟨(none, t), by simp [KeyedDom.closeElement, hf], h⟩
  | [f] => exact ⟨(none, t), by simp [KeyedDom.closeElement, hf], h⟩
  | f :: g :: below =>
    obtain ⟨e, he, -⟩ := h.current hf
    have hframed : Framed t.document (f :: g :: below) := hf ▸ h.framed
    refine ⟨_, closeElement_eq h hf, isTree_pruned h.tree he, ?_⟩
    refine (framed_innermost h.tree hframed (changesBelow_pruned h.tree he) (i := 0) ⟨?_, ?_⟩).tail
    · rw [element?_pruned h.tree he]
      rfl
    · exact Nat.zero_le _

theorem Sound.writeText (h : t.Sound) (value : String) :
    ∃ r, t.writeText value = .ok r ∧ r.2.Sound := by
  cases hf : t.frames with
  | nil => exact ⟨(none, t), by simp [KeyedDom.writeText, hf], h⟩
  | cons f below =>
    obtain ⟨e, he, hindex⟩ := h.current hf
    have hframed : Framed t.document (f :: below) := hf ▸ h.framed
    by_cases hold : ∃ id old, e.children[f.index]? = some id ∧
        t.document.content? id = some (.text old)
    · obtain ⟨id, old, hid, hc⟩ := hold
      have hshape : t.document.SameShape (t.document.setContent id (.text value)) := by
        refine .setContent ?_ (by simp)
        simp [Document.children, Document.element?, hc]
      refine ⟨_, writeText_found hf he hid hc value, h.tree.congr hshape, ?_⟩
      have hne : f.parent ≠ id := fun hp => by
        rw [Document.element?_eq_some_iff, hp, hc] at he
        cases he
      have hbelow : t.document.ChangesBelow f.parent (t.document.setContent id (.text value)) := by
        intro k _ hk
        rw [Document.node?_setContent, if_neg]
        rintro rfl
        exact hk (.child .self (by
          rw [Document.children_of_element? he]; exact List.mem_of_getElem? hid))
      refine framed_innermost h.tree hframed hbelow ⟨?_, ?_⟩
      · rw [Document.element?_setContent_ne hne, he]
        rfl
      · rw [hshape.children, Document.children_of_element? he]
        exact (List.getElem?_eq_some_iff.1 hid).1
    · push Not at hold
      have hnew : (t.document.adopt f.parent f.index (.text value)).element? f.parent = _ :=
        Document.element?_adopt he
      refine ⟨_, writeText_new h hf he (fun id old => hold id old) value,
        h.tree.adopt he (by simp) hindex, ?_⟩
      refine framed_innermost h.tree hframed .adopt ⟨by rw [hnew]; rfl, ?_⟩
      rw [Document.children_of_element? hnew, List.length_insertIdx_of_le_length hindex]
      exact Nat.succ_le_succ hindex

theorem Sound.updateElement (h : t.Sound) (p : NodeId) {change : Element → Element}
    (hc : ∀ e, (change e).children = e.children) :
    (t.setDocument (t.document.updateElement p change)).Sound := by
  have hshape := Document.SameShape.updateElement t.document p hc
  refine ⟨h.tree.congr hshape, h.framed.congr fun g hg => ⟨?_, ?_⟩⟩
  · have hsome := (h.framed.fits g hg).1
    simp only [document_setDocument, Document.element?_updateElement]
    split
    · next hp => rw [hp] at hsome; simpa using hsome
    · exact hsome
  · simp only [document_setDocument, hshape.children, List.prefix_rfl]

theorem Sound.changeCurrent (h : t.Sound) {change : Element → Element}
    (hc : ∀ e, (change e).children = e.children) :
    ∃ t', t.changeCurrent change = .ok t' ∧ t'.Sound := by
  cases hf : t.frames with
  | nil => exact ⟨t, by simp [KeyedDom.changeCurrent, hf], h⟩
  | cons f below => exact ⟨_, changeCurrent_eq h hf change, h.updateElement f.parent hc⟩

theorem Sound.setAttributes (h : t.Sound) (attributes : List (String × String)) :
    ∃ t', t.setAttributes attributes = .ok t' ∧ t'.Sound := by
  induction attributes generalizing t with
  | nil => exact ⟨t, rfl, h⟩
  | cons a rest ih =>
    have first : ∃ t₁, t.changeCurrent (Element.setAttribute a.1 a.2) = .ok t₁ ∧ t₁.Sound :=
      h.changeCurrent fun _ => rfl
    obtain ⟨t₁, ht₁, h₁⟩ := first
    obtain ⟨t₂, ht₂, h₂⟩ := ih h₁
    exact ⟨t₂, by simp only [KeyedDom.setAttributes, List.foldlM_cons, ht₁, bind, Except.bind]
                  exact ht₂, h₂⟩

theorem Sound.skipTo (h : t.Sound) {target : Nat → Nat → Nat}
    (hle : ∀ index count, target index count ≤ count) : (t.skipTo target).Sound := by
  unfold KeyedDom.skipTo
  split
  · exact h
  · next f below hf => exact ⟨h.tree, (hf ▸ h.framed : Framed _ (f :: below)).replace (hle _ _)⟩

theorem Sound.setComment (h : t.Sound) (id : NodeId) (value : String) :
    (t.setComment id value).Sound := by
  have hshape := Document.SameShape.setComment t.document id value
  constructor
  · rw [document_setComment]
    exact h.tree.congr hshape
  · rw [document_setComment, frames_setComment]
    refine h.framed.congr fun g hg => ⟨?_, ?_⟩
    · rw [Document.element?_setComment]
      exact (h.framed.fits g hg).1
    · simp only [hshape.children, List.prefix_rfl]

theorem Sound.appendComment (h : t.Sound) (p : NodeId) (value : String) :
    ∃ r, t.appendComment p value = .ok r ∧ r.2.Sound := by
  cases he : t.document.element? p with
  | none => exact ⟨(none, t), by simp [KeyedDom.appendComment, he], h⟩
  | some e =>
    have htree : (t.document.adopt p e.children.length (.comment value)).IsTree :=
      h.tree.adopt he (by simp) (Nat.le_refl _)
    refine ⟨_, appendComment_eq he value, htree, h.framed.congr fun g hg => ?_⟩
    by_cases hp : g.parent = p
    · have hnew : (t.document.adopt p e.children.length (.comment value)).element? p = _ :=
        Document.element?_adopt he
      rw [hp, document_setDocument, Document.children_of_element? he,
        Document.children_of_element? hnew]
      exact ⟨by rw [hnew]; rfl, by simp [List.insertIdx_length_self]⟩
    · obtain ⟨e', he'⟩ := Option.isSome_iff_exists.1 (h.framed.fits g hg).1
      have hnode : (t.document.adopt p e.children.length (.comment value)).node? g.parent =
          t.document.node? g.parent :=
        Document.node?_adopt_ne hp (Nat.ne_of_lt (Document.lt_size_of_element? he'))
      rw [document_setDocument, Document.children_eq_of_node? hnode]
      refine ⟨?_, List.prefix_rfl⟩
      simp only [Document.element?, Document.content?, hnode] at he' ⊢
      rw [he']
      rfl

end KeyedRender.KeyedDom

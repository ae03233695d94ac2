import KeyedRender.Proofs.Document.Drawing
import KeyedRender.Proofs.Target.Edits

/-!
# The keyed target draws

A keyed target draws a plain script below the root of a pass, whatever is there. A child that was
not visited is opened or written in place, or a new one is put before it; what is left in the end
is removed. Nothing else is edited.
-/
namespace KeyedRender

namespace Document.Revises

variable {d : Document} {f : Frame} {e : Element}

theorem setChildren (hd : d.IsTree) (he : d.element? f.parent = some e) {l : List NodeId}
    (hl : l ⊆ e.children) (htake : l.take f.index = e.children.take f.index)
    (hindex : f.index ≤ l.length) : d.Revises f (d.setChildren f.parent l) := by
  refine ⟨.setChildren he hl, fun c hc id hid => ?_, fun e₀ he₀ => ?_⟩
  · exact node?_updateElement_ne _ (Drawn.ne_of_below_child hd (List.mem_of_mem_take hc) hid)
  · obtain rfl := Option.some.inj (he.symm.trans he₀)
    exact ⟨_, element?_setChildren he l, rfl, rfl, htake, hindex⟩

theorem adopt (hd : d.IsTree) (he : d.element? f.parent = some e) {content : Content}
    (hcontent : ∀ e', content = .element e' → e'.children = [])
    (hindex : f.index ≤ e.children.length) :
    d.Revises f (d.adopt f.parent f.index content) := by
  refine ⟨.adopt he hcontent hindex, fun c hc id hid => ?_, fun e₀ he₀ => ?_⟩
  · have hchild : c ∈ d.children f.parent := List.mem_of_mem_take hc
    obtain ⟨n, hn⟩ := isLive_iff.1 (Drawn.isLive_of_below hd hid (hd.isLive_child hchild))
    exact node?_adopt_ne (Drawn.ne_of_below_child hd hchild hid)
      (Nat.ne_of_lt (lt_size_of_node? hn))
  · obtain rfl := Option.some.inj (he.symm.trans he₀)
    refine ⟨_, element?_adopt he, rfl, rfl, ?_, ?_⟩
    · have hlen : (e.children.take f.index).length = f.index := by simp [hindex]
      rw [KeyedDom.insertIdx_eq_take_append hindex, List.take_append_of_le_length (by omega),
        List.take_of_length_le (by omega)]
    · rw [List.length_insertIdx_of_le_length hindex]
      omega

theorem updateElement (hd : d.IsTree) (he : d.element? f.parent = some e)
    (hindex : f.index ≤ e.children.length) {change : Element → Element}
    (hhead : ∀ e : Element, e.SameHead (change e))
    (h : ∀ e, (change e).attributes = e.attributes ∧ (change e).children = e.children) :
    d.Revises f (d.updateElement f.parent change) := by
  refine ⟨.updateElement _ _ (fun e => (h e).2) hhead, fun c hc id hid => ?_, fun e₀ he₀ => ?_⟩
  · exact node?_updateElement_ne _ (Drawn.ne_of_below_child hd (List.mem_of_mem_take hc) hid)
  · obtain rfl := Option.some.inj (he.symm.trans he₀)
    obtain ⟨hattributes, hchildren⟩ := h e
    refine ⟨change e, ?_, (hhead e).name, hattributes, by rw [hchildren], by rwa [hchildren]⟩
    rw [element?_updateElement, if_pos rfl, he]
    rfl

theorem setText (hd : d.IsTree) (he : d.element? f.parent = some e) {id : NodeId}
    (hid : e.children[f.index]? = some id) {old : String} (hc : d.content? id = some (.text old))
    (value : String) : d.Revises f (d.setContent id (.text value)) := by
  have hchildren := children_of_element? he
  have hmem : id ∈ d.children f.parent := by
    rw [hchildren]
    exact List.mem_of_getElem? hid
  have hne : f.parent ≠ id := Nat.ne_of_lt (hd.lt hmem)
  have hshape : SameShape d (d.setContent id (.text value)) :=
    .setContent (by simp [children, element?, hc]) (by simp)
  have helement : (d.setContent id (.text value)).element? f.parent = d.element? f.parent :=
    element?_setContent_ne hne
  refine ⟨⟨⟨Nat.le_of_eq (size_setContent ..).symm, fun p c hc => ?_⟩, fun n _ hn => ?_,
    .of_element? helement⟩, fun c hcmem n hn => ?_, fun e₀ he₀ => ?_⟩
  · rw [hshape.children] at hc
    exact .inl hc
  · rw [node?_setContent, if_neg]
    rintro rfl
    exact hn (.child .self hmem)
  · rw [← hchildren] at hid
    rw [node?_setContent, if_neg]
    rintro rfl
    exact Drawn.not_below_unvisited hd hcmem (Drawn.mem_drop_of_getElem? hid (Nat.le_refl _)) hn .self
  · obtain rfl := Option.some.inj (he.symm.trans he₀)
    refine ⟨e, helement.trans he, rfl, rfl, rfl, ?_⟩
    exact Nat.le_of_lt (List.getElem?_eq_some_iff.1 hid).1

theorem pruned (hd : d.IsTree) (he : d.element? f.parent = some e)
    (hindex : f.index ≤ e.children.length) : d.Revises f (KeyedDom.pruned d f) := by
  have hchildren := children_of_element? he
  have hshorter : d.EditsBelow f.parent
      (d.setChildren f.parent ((d.children f.parent).take f.index)) :=
    .setChildren he (by rw [hchildren]; exact List.take_subset _ _)
  have hfewer : ∀ p, (d.setChildren f.parent ((d.children f.parent).take f.index)).children p ⊆
      d.children p := by
    intro p
    by_cases hp : p = f.parent
    · subst hp
      rw [children_setChildren_self he]
      exact List.take_subset _ _
    · rw [children_setChildren_ne hp]
      exact List.Subset.refl _
  have herase := KeyedDom.pruned_erasesTo hd he
  have hhead : d.KeepsHead f.parent (KeyedDom.pruned d f) := fun e₀ he₀ =>
    ⟨_, KeyedDom.element?_pruned hd he₀, rfl, rfl, rfl⟩
  refine ⟨hshorter.erasesTo herase (fun c hc => .child .self (List.mem_of_mem_drop hc)) hfewer hhead,
    fun c hc id hid => ?_, fun e₀ he₀ => ?_⟩
  · have hchild : c ∈ d.children f.parent := List.mem_of_mem_take hc
    rw [(herase.2 id).2, Document.setChildren,
      node?_updateElement_ne _ (Drawn.ne_of_below_child hd hchild hid)]
    intro hb
    obtain ⟨c', hc', hb'⟩ := KeyedDom.below_of_belowAny_drop he hb
    exact Drawn.not_below_unvisited hd hc hc' hid hb'
  · obtain rfl := Option.some.inj (he.symm.trans he₀)
    refine ⟨_, KeyedDom.element?_pruned hd he, rfl, rfl, by simp [List.take_take], ?_⟩
    simp [hindex]

end Document.Revises

namespace KeyedDom

/-- A target that draws below a root and has edited nothing else. -/
structure Draft (old : Document) (root : NodeId) (sk : Sketch) (t : KeyedDom) : Prop where
  sound : t.Sound
  edits : old.EditsBelow root t.document
  drawn : Drawn t.document root t.frames sk
  mode : t.mode = .inner

variable {t : KeyedDom} {old : Document} {root : NodeId} {sk : Sketch} {f : Frame}
  {below : List Frame}

theorem name_of_accepts {name key : String} {id : NodeId} (h : t.accepts name key id = true) :
    ∃ e, t.document.element? id = some e ∧ e.name = name := by
  unfold accepts at h
  split at h
  · next e he =>
    refine ⟨e, he, ?_⟩
    cases hrule : t.rule <;>
      simp [hrule, Key.MatchRule.accepts, Key.elementMatches] at h <;> exact h.1.symm
  · cases h

namespace Draft

theorem exists_frame (h : t.Draft old root sk) : ∃ f below, t.frames = f :: below := by
  have hdrawn := h.drawn
  cases hf : t.frames with
  | nil =>
    rw [hf] at hdrawn
    cases hdrawn
  | cons f below => exact ⟨f, below, rfl⟩

theorem drawn_cons (h : t.Draft old root sk) (hf : t.frames = f :: below) :
    Drawn t.document root (f :: below) sk := hf ▸ h.drawn

theorem revised (h : t.Draft old root sk) (hf : t.frames = f :: below) {d : Document}
    (hd : t.document.Revises f d) : old.EditsBelow root d ∧ Drawn d root (f :: below) sk :=
  ⟨h.edits.trans (Document.TreeBut.pointsLater h.sound.tree) (h.drawn_cons hf).below_root hd.edits,
    (h.drawn_cons hf).revised h.sound.tree hd⟩

section Visited

variable {e : Element}

theorem opened_found (h : t.Draft old root sk) (hf : t.frames = f :: below)
    (he : t.document.element? f.parent = some e) (hindex : f.index ≤ e.children.length)
    {name key : String} {before after : List NodeId} {id : NodeId}
    (hsplit : e.children.drop f.index = before ++ id :: after)
    (hid : t.accepts name key id = true) (hbefore : ∀ c ∈ before, t.accepts name key c = false) :
    ∃ r, t.openElement name key = .ok r ∧ r.2.Draft old root (sk.opened name) := by
  have hlen : (e.children.take f.index).length = f.index := by simp [hindex]
  have hopen := openElement_found h.sound hf he hsplit hid hbefore
  obtain ⟨r, hr, hsound⟩ := h.sound.openElement name key
  rw [hopen] at hr
  cases hr
  obtain ⟨e₁, he₁, rfl⟩ := name_of_accepts hid
  have hsub : e.children.take f.index ++ id :: (before ++ after) ⊆ e.children := by
    intro c hc
    rw [← List.take_append_drop f.index e.children, hsplit]
    simp only [List.mem_append, List.mem_cons] at hc ⊢
    tauto
  obtain ⟨hedits, hdrawn⟩ := h.revised hf
    (.setChildren h.sound.tree he hsub (by simp [hlen]) (by simp [hindex]))
  obtain ⟨e₂, he₂, hname⟩ : ∃ e₂, (t.document.setChildren f.parent
      (e.children.take f.index ++ id :: (before ++ after))).element? id = some e₂ ∧
      e₂.name = e₁.name := by
    rw [Document.setChildren, Document.element?_updateElement]
    split
    · next hp =>
      rw [← hp, he₁]
      exact ⟨_, rfl, rfl⟩
    · exact ⟨e₁, he₁, rfl⟩
  refine ⟨_, hopen, hsound, hedits, ?_, h.mode⟩
  rw [← hname]
  refine hdrawn.opened ?_ he₂
  rw [Document.children_setChildren_self he]
  simp [hlen]

theorem opened_new (h : t.Draft old root sk) (hf : t.frames = f :: below)
    (he : t.document.element? f.parent = some e) (hindex : f.index ≤ e.children.length)
    {name key : String} (hnone : ∀ c ∈ e.children.drop f.index, t.accepts name key c = false) :
    ∃ r, t.openElement name key = .ok r ∧ r.2.Draft old root (sk.opened name) := by
  have hlen : (e.children.take f.index).length = f.index := by simp [hindex]
  have hopen := openElement_new h.sound hf he hnone
  obtain ⟨r, hr, hsound⟩ := h.sound.openElement name key
  rw [hopen] at hr
  cases hr
  have hempty := Document.children_of_new name key
  obtain ⟨hedits, hdrawn⟩ := h.revised hf (.adopt h.sound.tree he hempty hindex)
  have hnew : (t.document.adopt f.parent f.index (.element (.new name key))).element?
      t.document.size = some (.new name key) := by
    simp [Document.element?, Document.content?, Document.node?_adopt_size he]
  refine ⟨_, hopen, hsound, hedits, hdrawn.opened ?_ hnew, h.mode⟩
  rw [Document.children_adopt he hempty, if_pos rfl, insertIdx_eq_take_append hindex]
  simp [hlen]

theorem written_found (h : t.Draft old root sk) (hf : t.frames = f :: below)
    (he : t.document.element? f.parent = some e) {id : NodeId} {text : String}
    (hid : e.children[f.index]? = some id) (hc : t.document.content? id = some (.text text))
    (value : String) :
    ∃ r, t.writeText value = .ok r ∧ r.2.Draft old root (sk.written value) := by
  have hwrite := writeText_found hf he hid hc value
  obtain ⟨r, hr, hsound⟩ := h.sound.writeText value
  rw [hwrite] at hr
  cases hr
  obtain ⟨hedits, hdrawn⟩ := h.revised hf (.setText h.sound.tree he hid hc value)
  have hne : f.parent ≠ id := by
    rintro rfl
    rw [Document.element?_eq_some_iff.1 he] at hc
    cases hc
  have hchild : ((t.document.setContent id (.text value)).children f.parent)[f.index]? = some id := by
    rwa [Document.children_of_element? ((Document.element?_setContent_ne hne).trans he)]
  have htext : (t.document.setContent id (.text value)).content? id = some (.text value) := by
    obtain ⟨n, hn, -⟩ := Option.map_eq_some_iff.1 hc
    simp [Document.content?, Document.node?_setContent, hn]
  exact ⟨_, hwrite, hsound, hedits, hdrawn.added hsound.tree hchild (.text htext .nil), h.mode⟩

theorem written_new (h : t.Draft old root sk) (hf : t.frames = f :: below)
    (he : t.document.element? f.parent = some e) (hindex : f.index ≤ e.children.length)
    (hnone : ∀ id text, e.children[f.index]? = some id →
      t.document.content? id ≠ some (.text text)) (value : String) :
    ∃ r, t.writeText value = .ok r ∧ r.2.Draft old root (sk.written value) := by
  have hwrite := writeText_new h.sound hf he hnone value
  obtain ⟨r, hr, hsound⟩ := h.sound.writeText value
  rw [hwrite] at hr
  cases hr
  have hempty : ∀ e', Content.text value = .element e' → e'.children = [] := by simp
  obtain ⟨hedits, hdrawn⟩ := h.revised hf (.adopt h.sound.tree he hempty hindex)
  have hlen : (e.children.take f.index).length = f.index := by simp [hindex]
  have hchild : ((t.document.adopt f.parent f.index (.text value)).children f.parent)[f.index]? =
      some t.document.size := by
    rw [Document.children_adopt he hempty, if_pos rfl, insertIdx_eq_take_append hindex]
    simp [hlen]
  have htext : (t.document.adopt f.parent f.index (.text value)).content? t.document.size =
      some (.text value) := by
    simp [Document.content?, Document.node?_adopt_size he]
  exact ⟨_, hwrite, hsound, hedits, hdrawn.added hsound.tree hchild (.text htext .nil), h.mode⟩

end Visited

theorem openElement (h : t.Draft old root sk) (name key : String) :
    ∃ r, t.openElement name key = .ok r ∧ r.2.Draft old root (sk.opened name) := by
  obtain ⟨f, below, hf⟩ := h.exists_frame
  obtain ⟨e, he, hindex⟩ := h.sound.current hf
  rcases t.exists_match_or_forall name key (e.children.drop f.index) with
    ⟨before, id, after, hsplit, hid, hbefore⟩ | hnone
  · exact h.opened_found hf he hindex hsplit hid hbefore
  · exact h.opened_new hf he hindex hnone

theorem closeElement (h : t.Draft old root sk) (hopen : sk.outer ≠ []) :
    ∃ r, t.closeElement = .ok r ∧ r.2.Draft old root sk.closed := by
  obtain ⟨r, hr, hsound⟩ := h.sound.closeElement
  obtain ⟨f, below, hf⟩ := h.exists_frame
  obtain ⟨e, he, hindex⟩ := h.sound.current hf
  obtain ⟨hedits, hdrawn⟩ := h.revised hf (.pruned h.sound.tree he hindex)
  refine ⟨r, hr, ?_⟩
  cases below with
  | nil =>
    cases hdrawn
    exact absurd rfl hopen
  | cons g below =>
    rw [closeElement_eq h.sound hf] at hr
    cases hr
    refine ⟨hsound, hedits, hdrawn.closed (isTree_pruned h.sound.tree he) ?_, h.mode⟩
    rw [children_pruned h.sound.tree he]
    exact List.length_take_le ..

theorem writeText (h : t.Draft old root sk) (value : String) :
    ∃ r, t.writeText value = .ok r ∧ r.2.Draft old root (sk.written value) := by
  obtain ⟨f, below, hf⟩ := h.exists_frame
  obtain ⟨e, he, hindex⟩ := h.sound.current hf
  by_cases hold : ∃ id text, e.children[f.index]? = some id ∧
      t.document.content? id = some (.text text)
  · obtain ⟨id, text, hid, hc⟩ := hold
    exact h.written_found hf he hid hc value
  · push Not at hold
    exact h.written_new hf he hindex (fun id text => hold id text) value

theorem changeCurrent (h : t.Draft old root sk) (name value : String) :
    ∃ t', t.changeCurrent (Element.setAttribute name value) = .ok t' ∧
      t'.Draft old root (sk.assigned name value) := by
  obtain ⟨f, below, hf⟩ := h.exists_frame
  have hdrawn := h.drawn_cons hf
  refine ⟨_, changeCurrent_eq h.sound hf _, h.sound.updateElement f.parent fun _ => rfl,
    h.edits.trans (Document.TreeBut.pointsLater h.sound.tree) hdrawn.below_root
      (.updateElement _ _ (fun _ => rfl) fun _ => ⟨rfl, rfl, rfl⟩), ?_, h.mode⟩
  rw [frames_setDocument, hf]
  exact hdrawn.assigned h.sound.tree name value

theorem setProperty (h : t.Draft old root sk) (name value : String) :
    ∃ t', t.changeCurrent (Element.setProperty name value) = .ok t' ∧ t'.Draft old root sk := by
  obtain ⟨f, below, hf⟩ := h.exists_frame
  obtain ⟨e, he, hindex⟩ := h.sound.current hf
  have hhead : ∀ e : Element, e.SameHead (e.setProperty name value) := fun _ => ⟨rfl, rfl, rfl⟩
  obtain ⟨hedits, hdrawn⟩ := h.revised hf (.updateElement h.sound.tree he hindex hhead
    fun _ => ⟨rfl, rfl⟩)
  refine ⟨_, changeCurrent_eq h.sound hf _, h.sound.updateElement f.parent fun _ => rfl, hedits, ?_,
    h.mode⟩
  rwa [frames_setDocument, hf]

theorem setAttributes (h : t.Draft old root sk) (attributes : List (String × String)) :
    ∃ t', t.setAttributes attributes = .ok t' ∧ t'.Draft old root (sk.assignedAll attributes) := by
  induction attributes generalizing t sk with
  | nil => exact ⟨t, rfl, h⟩
  | cons a rest ih =>
    obtain ⟨t₁, ht₁, h₁⟩ := h.changeCurrent a.1 a.2
    obtain ⟨t₂, ht₂, h₂⟩ := ih h₁
    refine ⟨t₂, ?_, h₂⟩
    simp only [KeyedDom.setAttributes, List.foldlM_cons, ht₁, bind, Except.bind]
    exact ht₂

theorem endPatch (h : t.Draft old root sk) (hclosed : sk.outer = []) :
    ∃ t', t.endPatch = .ok t' ∧ old.EditsBelow root t'.document ∧
      ∃ e, t'.document.element? root = some e ∧ Carries e.attributes sk.level.assigned ∧
        t'.document.Shows e.children sk.level.shapes := by
  obtain ⟨f, below, hf⟩ := h.exists_frame
  obtain ⟨e, he, hindex⟩ := h.sound.current hf
  obtain ⟨hedits, hdrawn⟩ := h.revised hf (.pruned h.sound.tree he hindex)
  obtain ⟨level, outer⟩ := sk
  cases hclosed
  cases hdrawn with
  | @base index _ hshown =>
    obtain ⟨e', he', -, hcarries, hshows⟩ := hshown
    obtain rfl := Option.some.inj ((element?_pruned h.sound.tree he).symm.trans he')
    rw [List.take_take, Nat.min_self] at hshows
    exact ⟨_, endPatch_eq h.sound hf h.mode, hedits, _, he', hcarries, hshows⟩

end Draft

theorem draws (old : Document) (root : NodeId) :
    Draws (τ := KeyedDom) fun sk t _ => t.Draft old root sk where
  opened name key h := by
    obtain ⟨r, hr, hdraft⟩ := h.openElement name key
    exact .of_ok hr hdraft
  closed hopen h := by
    obtain ⟨r, hr, hdraft⟩ := h.closeElement hopen
    exact .of_ok hr hdraft
  written value h := by
    obtain ⟨r, hr, hdraft⟩ := h.writeText value
    exact .of_ok hr hdraft
  assigned attributes h := by
    obtain ⟨t', ht', hdraft⟩ := h.setAttributes attributes
    exact .of_ok_map ht' hdraft
  attributed name value h := by
    obtain ⟨t', ht', hdraft⟩ := h.setAttributes [(name, value)]
    exact .of_ok_map ht' hdraft
  property name value h := by
    obtain ⟨t', ht', hdraft⟩ := h.setProperty name value.toText
    exact .of_ok_map ht' hdraft
  applied h := h

end KeyedDom

end KeyedRender

import KeyedRender.Proofs.Document.Thinning
import KeyedRender.Proofs.Target.Bare
import KeyedRender.Proofs.Target.Visiting

/-!
# Calls that visit nodes

On any target whose open elements are in order, a call visits the node that it answers with, and
leaves what was visited before where it is. Only raw markup that is written into an element takes
what was visited below it.
-/
namespace KeyedRender

namespace KeyedDom

variable {t t' : KeyedDom} {f : Frame} {below : List Frame} {id : NodeId} {visits : List NodeId}
  {safe : NodeId → Prop}

theorem insertChild_puts (t : KeyedDom) (hp : (f.parent : Nat) < t.document.size)
    (content : Content) (hc : ∀ e, content = .element e → e.children = []) :
    Allows (fun _ => True) (fun r => Puts t.document f r.1 r.2.document ∧ r.2.frames = t.frames)
      (t.insertChild f.parent f.index content) := by
  refine (insertChild_allows t hp f.index content).mono ?_
  rintro _ ⟨e, he, hpos, rfl⟩
  have hchildren := Document.children_of_element? he
  refine ⟨⟨⟨?_, fun {c p} hc hparent => ?_⟩, .inr rfl, hchildren ▸ hpos, ?_, fun p hp => ?_,
    fun c hlive => ?_⟩, rfl⟩
  · rw [document_setDocument, Document.size_adopt]
    exact Nat.le_succ _
  · rwa [document_setDocument, Document.parent?_adopt, if_neg (Nat.ne_of_lt hc)] at hparent
  · refine ⟨_, List.Subset.refl _, ?_⟩
    rw [document_setDocument, Document.children_adopt he hc, if_pos rfl,
      insertIdx_eq_take_append hpos, hchildren]
  · rw [document_setDocument, Document.children_adopt he hc, if_neg hp]
  · rw [document_setDocument, Document.isLive_adopt, hlive, Bool.or_true]

theorem place_puts (t : KeyedDom) (hp : (f.parent : Nat) < t.document.size)
    (name key : String) :
    Allows (fun _ => True) (fun r => Puts t.document f r.1 r.2.document ∧ r.2.frames = t.frames)
      (t.place f name key) := by
  refine (Allows.any _).bind fun offset? _ => ?_
  cases offset? with
  | none => exact insertChild_puts t.countCreated hp _ (by rintro _ ⟨⟩; rfl)
  | some offset =>
    dsimp only
    split
    · trivial
    · next id hid =>
      obtain ⟨e, he, -⟩ := Document.element?_of_mem_children (List.mem_of_getElem? hid)
      obtain ⟨hlt, rfl⟩ := List.getElem?_eq_some_iff.1 hid
      have hindex : f.index ≤ (t.document.children f.parent).length := by omega
      have hrest : (t.document.children f.parent).drop f.index =
          ((t.document.children f.parent).drop f.index).take offset ++
            (t.document.children f.parent)[f.index + offset] ::
              ((t.document.children f.parent).drop f.index).drop (offset + 1) := by
        conv_lhs => rw [← List.take_append_drop offset (List.drop _ _)]
        rw [List.drop_drop, List.drop_drop, List.drop_eq_getElem_cons hlt, Nat.add_assoc]
      have hmoved := moved_eq ((t.document.children f.parent).take f.index)
        (((t.document.children f.parent).drop f.index).take offset)
        (((t.document.children f.parent).drop f.index).drop (offset + 1))
        (t.document.children f.parent)[f.index + offset]
      rw [← hrest, List.take_append_drop, List.length_take_of_le hindex,
        List.length_take_of_le (by rw [List.length_drop]; omega)] at hmoved
      refine ⟨⟨Document.editing_sameParents.reshaping.setChildren _ _ _, .inl ?_, hindex,
        ⟨_, ?_, (Document.children_setChildren_self he _).trans hmoved⟩,
        fun p hp => Document.children_setChildren_ne hp _, fun c hlive => ?_⟩, rfl⟩
      · rw [hrest]
        exact List.mem_append_cons_self
      · exact List.append_subset.2 ⟨List.take_subset _ _, List.drop_subset _ _⟩
      · rwa [document_setDocument, Document.setChildren, Document.isLive_updateElement]

theorem openElement_puts (h : t.Ordered) (hf : t.frames = f :: below) (name key : String) :
    Allows (fun _ => True) (fun r => ∃ id, r.1 = some id ∧
      Puts t.document f id r.2.document ∧
      r.2.frames = [⟨id, 0⟩] ++ ⟨f.parent, f.index + 1⟩ :: below) (t.openElement name key) := by
  have hp : (f.parent : Nat) < t.document.size := h.known _ (by simp [openElements, hf])
  simp only [KeyedDom.openElement, hf]
  refine (place_puts t hp name key).bind fun r hr => ⟨r.1, rfl, hr.1, ?_⟩
  rw [hr.2, hf]
  rfl

theorem puts_setText {d : Document} {old : String}
    (hid : (d.children f.parent)[f.index]? = some id) (hc : d.content? id = some (.text old))
    (value : String) :
    Puts d f id (d.setContent id (.text value)) := by
  obtain ⟨hlt, hget⟩ := List.getElem?_eq_some_iff.1 hid
  have hleaf : d.children id = [] := by simp [Document.children, Document.element?, hc]
  have hshape : d.SameShape (d.setContent id (.text value)) := .setContent hleaf (by simp)
  have hdrop : (d.children f.parent).drop f.index =
      id :: (d.children f.parent).drop (f.index + 1) := by
    rw [List.drop_eq_getElem_cons hlt, hget]
  refine ⟨Document.editing_sameParents.setText value hc, .inl ?_, Nat.le_of_lt hlt,
    ⟨_, List.drop_subset_drop_left _ (Nat.le_succ _), ?_⟩, fun p _ => hshape.children p,
    fun c hlive => (hshape.live c).trans hlive⟩
  · rw [hdrop]
    exact List.mem_cons_self
  · rw [hshape.children, ← hdrop, List.take_append_drop]

theorem writeText_puts (h : t.Ordered) (hf : t.frames = f :: below) (value : String) :
    Allows (fun _ => True) (fun r => ∃ id, r.1 = some id ∧
      Puts t.document f id r.2.document ∧
      r.2.frames = [] ++ ⟨f.parent, f.index + 1⟩ :: below) (t.writeText value) := by
  have hp : (f.parent : Nat) < t.document.size := h.known _ (by simp [openElements, hf])
  have hnew := insertChild_puts t hp (.text value) (by simp)
  simp only [KeyedDom.writeText, hf]
  split
  · refine hnew.bind fun r hr => ⟨r.1, rfl, hr.1, ?_⟩
    rw [hr.2, hf]
    rfl
  · next id hid =>
    refine (allows_liveNode t id).bind fun n hn => ?_
    split
    · next old hold =>
      refine ⟨id, rfl, puts_setText hid (hn.trans (congrArg some hold)) value, ?_⟩
      rw [frames_setDocument, hf]
      rfl
    · refine hnew.bind fun r hr => ⟨r.1, rfl, hr.1, ?_⟩
      rw [hr.2, hf]
      rfl

/-- Some nodes are visited. Of all that are visited by then, none that is safe is lost. -/
structure Proceeds (safe : NodeId → Prop) (t : KeyedDom) (visits new : List NodeId)
    (t' : KeyedDom) : Prop where
  visited : t'.HasVisited (visits ++ new)
  old : ∀ c ∈ visits, safe c → t.document.isLive c = true → t'.document.isLive c = true
  new : ∀ c ∈ new, safe c → t'.document.isLive c = true

theorem HasVisited.proceeds (h : t'.HasVisited visits)
    (hlive : ∀ c ∈ visits, t.document.isLive c = true → t'.document.isLive c = true) :
    t.Proceeds safe visits [] t' :=
  ⟨by rwa [List.append_nil], fun c hc _ => hlive c hc, by simp⟩

theorem HasVisited.idle (h : t.HasVisited visits) : t.Proceeds safe visits [] t :=
  h.proceeds fun _ _ hc => hc

namespace Proceeds

variable {new new' : List NodeId} {t'' : KeyedDom}

theorem kept (h : t.Proceeds safe visits [] t') : t'.HasVisited visits := by
  have hvisited := h.visited
  rwa [List.append_nil] at hvisited

theorem mono {safe' : NodeId → Prop} (h : t.Proceeds safe visits new t')
    (hsafe : ∀ c ∈ visits ++ new, safe' c → safe c) : t.Proceeds safe' visits new t' where
  visited := h.visited
  old c hc hs := h.old c hc (hsafe c (List.mem_append_left _ hc) hs)
  new c hc hs := h.new c hc (hsafe c (List.mem_append_right _ hc) hs)

theorem andThen (h : t.Proceeds safe visits [] t') (h' : t'.Proceeds safe visits new t'') :
    t.Proceeds safe visits new t'' :=
  ⟨h'.visited, fun c hc hs hl => h'.old c hc hs (h.old c hc hs hl), h'.new⟩

theorem trans (h : t.Proceeds safe visits new t') (h' : t'.Proceeds safe (visits ++ new) new' t'') :
    t.Proceeds safe visits (new ++ new') t'' where
  visited := by
    rw [← List.append_assoc]
    exact h'.visited
  old c hc hs hl := h'.old c (List.mem_append_left _ hc) hs (h.old c hc hs hl)
  new c hc hs := by
    rcases List.mem_append.1 hc with hc | hc
    · exact h'.old c (List.mem_append_right _ hc) hs (h.new c hc hs)
    · exact h'.new c hc hs

end Proceeds

/-- A call that writes no raw markup into an element that a node is below. -/
def Spares (t : KeyedDom) (call : TargetCall) (c : NodeId) : Prop :=
  ∀ id markup, call = .setInnerMarkup id markup →
    ∀ child ∈ t.document.children id, ¬ t.document.Below child c

theorem unvisited_of_fewer {child : NodeId} (hchild : t'.Unvisited child)
    (hfewer : ∀ p, (t'.document.children p).Sublist (t.document.children p))
    (hframes : t'.frames ⊆ t.frames) : t.Unvisited child := by
  obtain ⟨g, hg, hchild⟩ := hchild
  exact ⟨g, hframes hg, ((hfewer g.parent).drop g.index).subset hchild⟩

theorem dropUnvisited_allows (t : KeyedDom) (f : Frame) :
    Allows (fun _ => True) (fun t' => ∃ e, t.document.element? f.parent = some e ∧
      t' = t.setDocument (pruned t.document f)) (t.dropUnvisited f) := by
  refine (listedChildren_allows t f.parent).bind fun children ⟨e, he, hchildren⟩ => ?_
  split
  · trivial
  · refine ⟨e, he, ?_⟩
    rw [pruned, Document.children_of_element? he, hchildren]

theorem setInnerMarkup_allows (t : KeyedDom) (id : NodeId) (markup : String) :
    Allows (fun _ => True) (fun t' => ∃ e, t.document.element? id = some e ∧ t'.frames = t.frames ∧
      t'.document = (pruned t.document ⟨id, 0⟩).updateElement id
        fun e => { e with raw := some markup }) (t.setInnerMarkup id markup) := by
  cases he : t.document.element? id with
  | some e =>
    rw [setInnerMarkup_eq he]
    exact ⟨e, rfl, rfl, rfl⟩
  | none =>
    refine (listedChildren_allows t id).bind fun children ⟨e, he', _⟩ => ?_
    rw [he] at he'
    cases he'

theorem sublist_pruned (d : Document) (f : Frame) (p : NodeId) :
    ((pruned d f).children p).Sublist (d.children p) := by
  have hthins : d.Thins (pruned d f) :=
    (Document.Thins.setChildren d f.parent f.index).trans (.dropAll _ _)
  obtain ⟨k, hk⟩ := hthins.children p
  rw [hk]
  exact List.take_sublist _ _

theorem sameParents_pruned (d : Document) (f : Frame) : d.SameParents (pruned d f) :=
  Document.editing_sameParents.reshaping.prune _ _ _ _

section Calls

variable (h : t.HasVisited visits)
include h

theorem HasVisited.visits_one (hf : t.frames = f :: below) (ht : t'.Ordered) {front : List Frame}
    (hfront : ∀ g ∈ front, g = ⟨id, 0⟩) (hp : Puts t.document f id t'.document)
    (hframes : t'.frames = front ++ ⟨f.parent, f.index + 1⟩ :: below) :
    t.Proceeds safe visits [id] t' := by
  refine ⟨h.put hf hp ht hfront hframes, fun c _ _ => hp.live c, fun c hc _ => ?_⟩
  obtain rfl := List.mem_singleton.1 hc
  exact ht.tree.isLive_child hp.mem_children

theorem HasVisited.openElement (name key : String) :
    Allows (fun _ => True) (fun r => t.Proceeds safe visits r.1.toList r.2)
      (t.openElement name key) := by
  cases hf : t.frames with
  | nil =>
    simp only [KeyedDom.openElement, hf]
    exact h.idle
  | cons f below =>
    refine ((openElement_puts h.ordered hf name key).and (h.ordered.openElement name key)).mono ?_
    rintro ⟨_, t'⟩ ⟨⟨id, rfl, hputs, hframes⟩, ht⟩
    exact h.visits_one hf ht (fun g hg => List.mem_singleton.1 hg) hputs hframes

theorem HasVisited.writeText (value : String) :
    Allows (fun _ => True) (fun r => t.Proceeds safe visits r.1.toList r.2)
      (t.writeText value) := by
  cases hf : t.frames with
  | nil =>
    simp only [KeyedDom.writeText, hf]
    exact h.idle
  | cons f below =>
    refine ((writeText_puts h.ordered hf value).and (h.ordered.writeText value)).mono ?_
    rintro ⟨_, t'⟩ ⟨⟨id, rfl, hputs, hframes⟩, ht⟩
    exact h.visits_one hf ht (by simp) hputs hframes

theorem HasVisited.reshaped (ht : t'.Ordered) (hshape : t.document.SameShape t'.document)
    (hsize : t.document.size ≤ t'.document.size) (hopen : t'.openElements ⊆ t.openElements)
    (hrest : ∀ child, t'.Unvisited child → t.Unvisited child) :
    t.Proceeds safe visits [] t' := by
  have hsame : t.document.SameParents t'.document :=
    ⟨hsize, fun {c _} _ hp => (hshape.parent c).symm.trans hp⟩
  exact (h.fewer ht hsame (fun p => by rw [hshape.children]) hopen hrest).proceeds
    fun c _ hc => (hshape.live c).trans hc

theorem HasVisited.stayed (ht : t'.Ordered) (hdocument : t'.document = t.document)
    (hopen : t'.openElements ⊆ t.openElements)
    (hrest : ∀ child, t'.Unvisited child → t.Unvisited child) :
    t.Proceeds safe visits [] t' :=
  h.reshaped ht ⟨fun _ => by rw [hdocument], fun _ => by rw [hdocument], fun _ => by rw [hdocument]⟩
    (Nat.le_of_eq (by rw [hdocument])) hopen hrest

theorem HasVisited.setDocument {d : Document} (hshape : t.document.SameShape d)
    (hsize : t.document.size ≤ d.size) :
    t.Proceeds safe visits [] (t.setDocument d) :=
  h.reshaped (h.ordered.reshape hshape hsize) hshape hsize (List.Subset.refl _) fun _ hchild =>
    unvisited_of_fewer hchild (fun p => by rw [document_setDocument, hshape.children])
      (List.Subset.refl _)

theorem HasVisited.updateElement (id : NodeId) {change : Element → Element}
    (hc : ∀ e, (change e).children = e.children) :
    t.Proceeds safe visits [] (t.setDocument (t.document.updateElement id change)) :=
  h.setDocument (.updateElement _ id hc) (Nat.le_of_eq (Document.size_updateElement ..).symm)

theorem HasVisited.pruned (hf : f ∈ t.frames) {e : Element}
    (he : t.document.element? f.parent = some e) (ht : t'.Ordered)
    (hdocument : t'.document = KeyedDom.pruned t.document f) (hframes : t'.frames ⊆ t.frames) :
    t.Proceeds safe visits [] t' := by
  have hfewer : ∀ p, (t'.document.children p).Sublist (t.document.children p) := fun p =>
    hdocument ▸ sublist_pruned t.document f p
  have hvisited := h.fewer ht (hdocument ▸ sameParents_pruned t.document f) hfewer
    (List.map_subset _ hframes) fun child hchild => unvisited_of_fewer hchild hfewer hframes
  refine hvisited.proceeds fun c hc hl => ?_
  rw [hdocument]
  exact isLive_pruned h.ordered.tree he hl
    fun child hchild => (h.clear c hc).apart child ⟨f, hf, hchild⟩

theorem HasVisited.closeElement :
    Allows (fun _ => True) (fun r => t.Proceeds safe visits [] r.2) t.closeElement := by
  match hf : t.frames with
  | [] =>
    simp only [KeyedDom.closeElement, hf]
    exact h.idle
  | [f] =>
    simp only [KeyedDom.closeElement, hf]
    exact h.idle
  | f :: outer :: below =>
    have hclosed : Allows (fun _ => True) (fun r => ∃ e, t.document.element? f.parent = some e ∧
        r.2.document = KeyedDom.pruned t.document f ∧ r.2.frames = outer :: below)
        t.closeElement := by
      simp only [KeyedDom.closeElement, hf]
      refine (dropUnvisited_allows t f).bind fun t' hdropped => ?_
      obtain ⟨e, he, rfl⟩ := hdropped
      exact ⟨e, he, rfl, rfl⟩
    refine (hclosed.and h.ordered.closeElement).mono fun r hr => ?_
    obtain ⟨⟨e, he, hdocument, hframes⟩, hordered⟩ := hr
    refine h.pruned (by simp [hf]) he hordered hdocument ?_
    rw [hframes, hf]
    exact List.subset_cons_self _ _

theorem HasVisited.endPatch :
    Allows (fun _ => True) (fun t' => t.Proceeds safe visits [] t') t.endPatch := by
  have hended : Allows (fun _ => True) (fun t' => t'.frames = [] ∧ (t'.document = t.document ∨
      ∃ f ∈ t.frames, ∃ e, t.document.element? f.parent = some e ∧
        t'.document = KeyedDom.pruned t.document f)) t.endPatch := by
    unfold KeyedDom.endPatch
    dsimp only
    split
    · next f hf _ =>
      refine (dropUnvisited_allows t f).bind fun t' ⟨e, he, ht'⟩ => ⟨rfl, .inr ⟨f, ?_, e, he, ?_⟩⟩
      · simp [hf]
      · rw [ht']
        rfl
    · exact ⟨rfl, .inl rfl⟩
  refine (hended.and h.ordered.endPatch).mono fun t' ⟨⟨hframes, hdocument⟩, ht'⟩ => ?_
  rcases hdocument with hsame | ⟨f, hf, e, he, hdocument⟩
  · refine h.stayed ht' hsame (by simp [openElements, hframes]) fun child ⟨g, hg, _⟩ => ?_
    simp [hframes] at hg
  · exact h.pruned hf he ht' hdocument (by simp [hframes])

theorem HasVisited.changeCurrent {change : Element → Element}
    (hc : ∀ e, (change e).children = e.children) :
    Allows (fun _ => True) (fun t' => t.Proceeds safe visits [] t')
      (t.changeCurrent change) := by
  unfold KeyedDom.changeCurrent
  split
  · exact h.idle
  · next f below _ => exact (Allows.any _).bind fun _ _ => h.updateElement f.parent hc

theorem HasVisited.setAttributes (attributes : List (String × String)) :
    Allows (fun _ => True) (fun t' => t.Proceeds safe visits [] t')
      (t.setAttributes attributes) := by
  induction attributes generalizing t with
  | nil => exact h.idle
  | cons a rest ih =>
    have hfirst : Allows (fun _ => True) (fun t' => t.Proceeds safe visits [] t')
        (t.changeCurrent (.setAttribute a.1 a.2)) := h.changeCurrent fun _ => rfl
    exact hfirst.bind fun t₁ h₁ => (ih h₁.kept).mono fun t₂ h₂ => h₁.andThen h₂

theorem HasVisited.skipTo {target : Nat → Nat → Nat}
    (hge : ∀ index count, index ≤ target index count ∨ count ≤ target index count) :
    t.Proceeds safe visits [] (t.skipTo target) := by
  have hopen : (t.skipTo target).openElements.Sublist t.openElements := by
    rw [openElements_skipTo]
  have htree : (t.skipTo target).document.IsTree := by
    rw [document_skipTo]
    exact h.ordered.tree
  have ht := h.ordered.change htree (Nat.le_of_eq (by rw [document_skipTo])) hopen
  refine h.stayed ht (document_skipTo t target) hopen.subset fun child ⟨g, hg, hchild⟩ => ?_
  rw [document_skipTo] at hchild
  cases hf : t.frames with
  | nil =>
    rw [KeyedDom.skipTo, hf] at hg
    exact ⟨g, hg, hchild⟩
  | cons f below =>
    simp only [KeyedDom.skipTo, hf] at hg
    rcases List.mem_cons.1 hg with rfl | hg
    · refine ⟨f, by simp [hf], ?_⟩
      rcases hge f.index (t.document.children f.parent).length with hle | hall
      · exact List.drop_subset_drop_left _ hle hchild
      · rw [List.drop_of_length_le hall] at hchild
        cases hchild
    · exact ⟨g, by simp [hf, hg], hchild⟩

theorem HasVisited.setComment (id : NodeId) (value : String) :
    t.Proceeds safe visits [] (t.setComment id value) := by
  have hshape := Document.SameShape.setComment t.document id value
  rw [← document_setComment] at hshape
  refine h.reshaped (h.ordered.setComment id value) hshape (Nat.le_of_eq ?_) ?_
    fun child hchild => unvisited_of_fewer hchild (fun p => by rw [hshape.children]) ?_
  · rw [document_setComment, Document.size_setComment]
  · rw [openElements, frames_setComment]
    exact List.Subset.refl _
  · rw [frames_setComment]
    exact List.Subset.refl _

theorem HasVisited.appended {p : NodeId} {e : Element} {content : Content} (ht : t'.Ordered)
    (he : t.document.element? p = some e) (hc : ∀ e', content = .element e' → e'.children = [])
    (hdocument : t'.document = t.document.adopt p e.children.length content)
    (hframes : t'.frames = t.frames) : t.Proceeds safe visits [] t' := by
  have hgains : t.document.Gains t'.document := by
    rw [hdocument]
    exact (Document.EditsBelow.adopt he hc (Nat.le_refl _)).toGains
  have hclear : ∀ {c}, t.Clear c → t'.Clear c := fun hcl => hcl.change ht.tree hgains
    fun child hchild => (unvisited_of_appended hchild he hc hdocument hframes).imp_right
      fun hold => ⟨child, hold, .self⟩
  have hsame : t.document.SameParents t'.document := by
    refine ⟨hgains.size, fun {c q} hlt hparent => ?_⟩
    rwa [hdocument, Document.parent?_adopt, if_neg (Nat.ne_of_lt hlt)] at hparent
  refine HasVisited.proceeds ⟨ht, fun q hq => hclear (h.around q ?_),
    fun c hcv => hclear (h.clear c hcv), h.nodup, fun q => ?_⟩ fun c _ hl => ?_
  · rwa [openElements, hframes] at hq
  · refine ((filter_parent_sublist hsame (fun c hcv => (h.clear c hcv).old) q).trans
      (h.listed q)).trans ?_
    rw [hdocument, Document.children_adopt he hc]
    split
    · next hq =>
      rw [List.insertIdx_length_self, hq, Document.children_of_element? he]
      exact List.sublist_append_left _ _
    · exact List.Sublist.refl _
  · rw [hdocument, Document.isLive_adopt, hl, Bool.or_true]

theorem HasVisited.appendComment (p : NodeId) (value : String) :
    Allows (fun _ => True) (fun r => t.Proceeds safe visits [] r.2)
      (t.appendComment p value) := by
  cases he : t.document.element? p with
  | none =>
    simp only [KeyedDom.appendComment, he]
    exact h.idle
  | some e =>
    have ht := h.ordered.appendComment p value
    rw [appendComment_eq he] at ht ⊢
    exact h.appended ht he (by simp) rfl rfl

theorem HasVisited.setInnerMarkup (id : NodeId) (markup : String) :
    Allows (fun _ => True)
      (fun t' => t.Proceeds (t.Spares (.setInnerMarkup id markup)) visits [] t')
      (t.setInnerMarkup id markup) := by
  refine ((setInnerMarkup_allows t id markup).and (h.ordered.setInnerMarkup id markup)).mono
    fun t' ⟨⟨e, he, hframes, hdocument⟩, ht⟩ => ?_
  have hchildren : ∀ p, t'.document.children p = (KeyedDom.pruned t.document ⟨id, 0⟩).children p :=
    fun p => by rw [hdocument, Document.children_updateElement _ _ _ (by simp)]
  have hfewer : ∀ p, (t'.document.children p).Sublist (t.document.children p) := fun p => by
    rw [hchildren]
    exact sublist_pruned t.document ⟨id, 0⟩ p
  have hsame : t.document.SameParents t'.document := by
    rw [hdocument]
    exact Document.editing_sameParents.trans (sameParents_pruned t.document ⟨id, 0⟩)
      (Document.editing_sameParents.updateElement _ _ fun _ => rfl)
  have hsubset : t'.frames ⊆ t.frames := by
    rw [hframes]
    exact List.Subset.refl _
  have hvisited := h.fewer ht hsame hfewer (List.map_subset _ hsubset)
    fun child hchild => unvisited_of_fewer hchild hfewer hsubset
  refine ⟨by rwa [List.append_nil], fun c _ hs hl => ?_, by simp⟩
  rw [hdocument, Document.isLive_updateElement]
  exact isLive_pruned h.ordered.tree he hl (hs id markup rfl)

theorem HasVisited.apply {call : TargetCall} (hc : call.IsInner) :
    Allows (fun _ => True) (fun r => t.Proceeds (t.Spares call) visits (call.visited r.1) r.2)
      (KeyedDom.apply call t) := by
  cases call with
  | beginPatch root mode rule => exact hc.elim
  | endPatch => exact h.endPatch.map fun _ hr => hr
  | openElement name key => exact h.openElement name key
  | closeElement => exact h.closeElement
  | text value => exact h.writeText value
  | setAttribute name value => exact (h.setAttributes _).map fun _ hr => hr
  | setProperty name value =>
    have hset : Allows (fun _ => True)
        (fun t' => t.Proceeds (t.Spares (.setProperty name value)) visits [] t')
        (t.changeCurrent (.setProperty name value.toText)) := h.changeCurrent fun _ => rfl
    exact hset.map fun _ hr => hr
  | skip => exact h.skipTo fun _ _ => .inr (Nat.le_refl _)
  | skipNode =>
    have hge : ∀ index count : Nat, index ≤ min (index + 1) count ∨ count ≤ min (index + 1) count :=
      fun _ _ => by omega
    exact h.skipTo hge
  | applyAttributes => exact h.idle
  | applyStatics attributes => exact (h.setAttributes attributes).map fun _ hr => hr
  | setInnerMarkup id markup => exact (h.setInnerMarkup id markup).map fun _ hr => hr
  | setComment id value => exact h.setComment id value
  | appendComment p value => exact h.appendComment p value

theorem HasVisited.updateRecord (id : NodeId) (change : NodeRecord → NodeRecord) :
    t.Proceeds safe visits [] (t.setDocument (t.document.updateRecord id change)) :=
  h.updateElement id fun _ => rfl

theorem HasVisited.attached (id : ComponentId) (c : Component) (root : NodeId) :
    t.Proceeds safe visits [] (t.setDocument (attachedDocument t.document id c root)) :=
  Document.of_attachedDocument (P := fun d => t.Proceeds safe visits [] (t.setDocument d)) h.idle
    fun _ node _ hd => hd.andThen (hd.kept.updateRecord node _)

end Calls

theorem visited_beginPatch (h : t.Ordered) {root : NodeId} (hroot : (root : Nat) < t.document.size)
    (mode : PatchMode) (rule : Key.MatchRule) :
    Allows (fun _ => True) (fun t' => t'.HasVisited []) (t.beginPatch root mode rule) := by
  have hbegun : Allows (fun _ => True) (fun t' => t'.document = t.document ∧ ∃ f, t'.frames = [f])
      (t.beginPatch root mode rule) := (Allows.any _).bind fun f _ => ⟨rfl, f, rfl⟩
  refine (hbegun.and (h.beginPatch hroot mode rule)).mono fun t' ⟨⟨hdocument, f, hf⟩, ht'⟩ => ?_
  refine ⟨ht', fun p hp => ⟨ht'.known p hp, fun child ⟨g, hg, hchild⟩ hb => ?_⟩, by simp, .nil,
    by simp⟩
  obtain rfl : g = f := List.mem_singleton.1 (hf ▸ hg)
  obtain rfl : p = g.parent := by simpa [openElements, hf] using hp
  have hlater := ht'.tree.lt (List.mem_of_mem_drop hchild)
  exact absurd (hb.le (Document.TreeBut.pointsLater ht'.tree)) (Nat.not_le.2 hlater)

/-- Whatever state a script leaves its target in, open elements are below no unvisited children. -/
theorem visited_calls : CallInvariant (fun _ => True) fun t _ => t.HasVisited [] where
  call _ hc h := (h.apply hc).mono fun _ hr => hr.visited.forget
  recorded {t _ change} node _ h := by
    have hrecorded : t.Proceeds (fun _ => True) [] [] _ := h.updateRecord node change
    exact hrecorded.kept
  grows h _ := h
  created _ := trivial
  found _ _ := trivial
  attached {t _ id c} root h _ _ := by
    have hattached : t.Proceeds (fun _ => True) [] [] _ := h.attached id c root
    exact hattached.kept

theorem HasVisited.append (h : t.HasVisited visits) {p : NodeId} (hp : (p : Nat) < t.document.size)
    {content : Content} (hc : ∀ e, content = .element e → e.children = []) :
    Allows (fun _ => True) (fun r => r.2.HasVisited visits) (t.append p content) := by
  refine ((insertChild_allows t hp _ content).and (h.ordered.append hp hc)).mono ?_
  rintro _ ⟨⟨e, he, -, rfl⟩, ht⟩
  have hposition : t.document.adopt p (t.document.children p).length content =
      t.document.adopt p e.children.length content := by rw [Document.children_of_element? he]
  have happended : t.Proceeds (fun _ => True) visits [] _ := h.appended ht he hc hposition rfl
  exact happended.kept

theorem HasVisited.remove (h : t.HasVisited visits) (id : NodeId) :
    Allows (fun _ => True) (fun t' => t'.HasVisited visits) (t.remove id) := by
  have hremoved : Allows (fun _ => True) (fun t' => t'.frames = t.frames ∧
      ∀ p, (t'.document.children p).Sublist (t.document.children p)) (t.remove id) := by
    have dropped : ∀ (d : Document) (p : NodeId),
        ((d.dropAll [id]).children p).Sublist (d.children p) := fun d p => by
      obtain ⟨k, hk⟩ := (Document.Thins.dropAll d [id]).children p
      rw [hk]
      exact List.take_sublist _ _
    cases hparent : t.document.parent? id with
    | none =>
      simp only [KeyedDom.remove, hparent]
      exact ⟨rfl, dropped t.document⟩
    | some q =>
      simp only [KeyedDom.remove, hparent]
      refine (listedChildren_allows t q).bind fun children hlisted => ⟨rfl, fun p => ?_⟩
      obtain ⟨e, he, hchildren⟩ := hlisted
      refine (dropped _ p).trans ?_
      by_cases hp : p = q
      · rw [hp, Document.children_setChildren_self he, Document.children_of_element? he, hchildren]
        exact List.filter_sublist
      · rw [Document.children_setChildren_ne hp]
  have hedited := edited_remove Document.editing_sameParents.reshaping.toRestructuring t id
  refine ((hremoved.and hedited).and (h.ordered.remove id)).mono fun t' hr => ?_
  obtain ⟨⟨⟨hframes, hfewer⟩, hsame⟩, ht'⟩ := hr
  have hsubset : t'.frames ⊆ t.frames := by
    rw [hframes]
    exact List.Subset.refl _
  exact h.fewer ht' hsame hfewer (List.map_subset _ hsubset)
    fun child hchild => unvisited_of_fewer hchild hfewer hsubset

theorem visited_new : new.HasVisited [] :=
  ⟨ordered_new, by simp [openElements, new], by simp, .nil, by simp⟩

end KeyedDom

end KeyedRender

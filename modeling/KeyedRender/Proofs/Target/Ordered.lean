import KeyedRender.Proofs.Target.Calling
import KeyedRender.Proofs.Target.Editing
import KeyedRender.Proofs.Target.Edits

/-!
# Open elements in order

On whatever target a call is made, also where the frames no longer fit the document, the document
stays a tree and each open element is younger than those around it. Only a pass over a node that
was never there could break this.
-/
namespace KeyedRender

namespace KeyedDom

def openElements (t : KeyedDom) : List NodeId := t.frames.map Frame.parent

structure Ordered (t : KeyedDom) : Prop where
  tree : t.document.IsTree
  younger : t.openElements.Pairwise fun inner outer : Nat => outer < inner
  known : ∀ id ∈ t.openElements, (id : Nat) < t.document.size

theorem ordered_new : new.Ordered := ⟨Document.isTree_single "body", .nil, by simp [openElements, new]⟩

variable {t t' : KeyedDom}

@[simp] theorem map_parent_advance (frames : List Frame) :
    (advance frames).map Frame.parent = frames.map Frame.parent := by
  cases frames <;> rfl

@[simp] theorem openElements_skipTo (t : KeyedDom) (target : Nat → Nat → Nat) :
    (t.skipTo target).openElements = t.openElements := by
  unfold skipTo openElements
  split
  · rfl
  · next hf => rw [hf]; rfl

namespace Ordered

theorem change (h : t.Ordered) (htree : t'.document.IsTree)
    (hsize : t.document.size ≤ t'.document.size) (hopen : t'.openElements.Sublist t.openElements) :
    t'.Ordered :=
  ⟨htree, h.younger.sublist hopen, fun id hid =>
    Nat.lt_of_lt_of_le (h.known id (hopen.subset hid)) hsize⟩

theorem reshape (h : t.Ordered) {d : Document} (hshape : t.document.SameShape d)
    (hsize : t.document.size ≤ d.size) : (t.setDocument d).Ordered :=
  h.change (h.tree.congr hshape) hsize (List.Sublist.refl _)

end Ordered

theorem listedChildren_allows (t : KeyedDom) (p : NodeId) :
    Allows (fun _ => True) (fun l => ∃ e, t.document.element? p = some e ∧ l = e.children)
      (t.listedChildren p) := by
  unfold listedChildren
  split
  · next e hc => exact ⟨e, Document.element?_eq_some_iff.2 hc, rfl⟩
  · trivial
  · trivial

theorem insertChild_allows (t : KeyedDom) {p : NodeId} (hp : (p : Nat) < t.document.size)
    (position : Nat) (content : Content) :
    Allows (fun _ => True) (fun r => ∃ e, t.document.element? p = some e ∧
        position ≤ e.children.length ∧
        r = (t.document.size, t.setDocument (t.document.adopt p position content)))
      (t.insertChild p position content) := by
  refine (listedChildren_allows (t.setDocument (t.document.add (some p) content).2) p).bind
    fun children ⟨e, he, hchildren⟩ => ?_
  rw [document_setDocument, Document.element?_add _ _ _ (Nat.ne_of_lt hp)] at he
  split
  · trivial
  · next hpos =>
    rw [hchildren] at hpos ⊢
    refine ⟨e, he, Nat.le_of_not_lt hpos, ?_⟩
    rw [Document.adopt, Document.children_of_element? he]
    rfl

theorem Ordered.insertChild (h : t.Ordered) {p : NodeId} (hp : (p : Nat) < t.document.size)
    (position : Nat) (content : Content) (hc : ∀ e, content = .element e → e.children = []) :
    Allows (fun _ => True) (fun r => r.2.Ordered ∧ r.2.openElements = t.openElements ∧
      (p : Nat) < r.1 ∧ r.1 < r.2.document.size) (t.insertChild p position content) := by
  refine (insertChild_allows t hp position content).mono ?_
  rintro _ ⟨e, he, hpos, rfl⟩
  have hsize := Document.size_adopt t.document p position content
  refine ⟨h.change (h.tree.adopt he hc hpos) ?_ (List.Sublist.refl _), rfl, hp, ?_⟩
  · rw [document_setDocument, hsize]
    exact Nat.le_succ _
  · rw [document_setDocument, hsize]
    exact Nat.lt_succ_self _

theorem Ordered.prune (h : t.Ordered) {p : NodeId} {e : Element}
    (he : t.document.element? p = some e) {keep rest : List NodeId}
    (hl : e.children.Perm (keep ++ rest)) :
    (t.setDocument ((t.document.setChildren p keep).dropAll rest)).Ordered := by
  rw [← Document.children_of_element? he] at hl
  exact h.change (h.tree.prune he hl)
    (Document.editing_sameParents.reshaping.prune _ _ _ _).size (List.Sublist.refl _)

theorem Ordered.dropUnvisited (h : t.Ordered) (f : Frame) :
    Allows (fun _ => True) (fun t' => t'.Ordered ∧ t'.openElements = t.openElements)
      (t.dropUnvisited f) := by
  refine (listedChildren_allows t f.parent).bind fun children ⟨e, he, hchildren⟩ => ?_
  split
  · trivial
  · exact ⟨h.prune he (by rw [hchildren, List.take_append_drop]), rfl⟩

theorem Ordered.place (h : t.Ordered) {f : Frame} (hf : (f.parent : Nat) < t.document.size)
    (name key : String) :
    Allows (fun _ => True) (fun r => r.2.Ordered ∧ r.2.openElements = t.openElements ∧
      (f.parent : Nat) < r.1 ∧ r.1 < r.2.document.size) (t.place f name key) := by
  refine (Allows.any _).bind fun offset? _ => ?_
  cases offset? with
  | none =>
    have hnew : t.countCreated.Ordered := h.change h.tree (Nat.le_refl _) (List.Sublist.refl _)
    exact hnew.insertChild hf f.index _ (by rintro _ ⟨⟩; rfl)
  | some offset =>
    dsimp only
    split
    · trivial
    · next id hid =>
      have hmem := List.mem_of_getElem? hid
      obtain ⟨e, he, -⟩ := Document.element?_of_mem_children hmem
      obtain ⟨hlt, rfl⟩ := List.getElem?_eq_some_iff.1 hid
      have hlen : f.index ≤ ((t.document.children f.parent).eraseIdx (f.index + offset)).length := by
        rw [List.length_eraseIdx_of_lt hlt]
        omega
      have hperm := (List.perm_insertIdx (t.document.children f.parent)[f.index + offset] _ hlen).trans
        (List.getElem_cons_eraseIdx_perm hlt)
      have hsame := Document.editing_sameParents.reshaping.setChildren t.document f.parent
        (((t.document.children f.parent).eraseIdx (f.index + offset)).insertIdx f.index
          (t.document.children f.parent)[f.index + offset])
      refine ⟨h.change (h.tree.rearrange he hperm.symm) hsame.size (List.Sublist.refl _), rfl,
        h.tree.lt hmem, Nat.lt_of_lt_of_le ?_ hsame.size⟩
      obtain ⟨n, hn⟩ := Document.isLive_iff.1 (h.tree.isLive_child hmem)
      exact Document.lt_size_of_node? hn

theorem Ordered.openElement (h : t.Ordered) (name key : String) :
    Allows (fun _ => True) (fun r => r.2.Ordered) (t.openElement name key) := by
  unfold KeyedDom.openElement
  split
  · exact h
  · next f below hframes =>
    have hf : (f.parent : Nat) < t.document.size := h.known _ (by simp [openElements, hframes])
    refine (h.place hf name key).bind fun r ⟨hr, hopen, hyounger, hknown⟩ => ?_
    have hsame : r.2.openElements = f.parent :: below.map Frame.parent := by
      rw [hopen, openElements, hframes, List.map_cons]
    have helements : KeyedDom.openElements
        { r.2 with frames := ⟨r.1, 0⟩ :: advance r.2.frames } = r.1 :: r.2.openElements := by
      simp [openElements]
    refine ⟨hr.tree, ?_, ?_⟩
    · rw [helements]
      refine List.pairwise_cons.2 ⟨fun id hid => ?_, hr.younger⟩
      have hinner := hr.younger
      rw [hsame] at hid hinner
      rcases List.mem_cons.1 hid with rfl | hid
      · exact hyounger
      · exact Nat.lt_trans ((List.pairwise_cons.1 hinner).1 id hid) hyounger
    · rw [helements]
      exact List.forall_mem_cons.2 ⟨hknown, hr.known⟩

theorem Ordered.closeElement (h : t.Ordered) :
    Allows (fun _ => True) (fun r => r.2.Ordered) t.closeElement := by
  unfold KeyedDom.closeElement
  split
  · next f outer below hframes =>
    refine (h.dropUnvisited f).bind fun t' ⟨ht', hopen⟩ => ?_
    refine ht'.change ht'.tree (Nat.le_refl _) ?_
    rw [hopen, openElements, openElements, hframes]
    exact List.sublist_cons_self _ _
  · exact h

theorem Ordered.advanced (h : t.Ordered) : Ordered { t with frames := advance t.frames } :=
  h.change h.tree (Nat.le_refl _) (by simp [openElements])

theorem Ordered.writeText (h : t.Ordered) (value : String) :
    Allows (fun _ => True) (fun r => r.2.Ordered) (t.writeText value) := by
  unfold KeyedDom.writeText
  split
  · exact h
  · next f below hframes =>
    have hf : (f.parent : Nat) < t.document.size := h.known _ (by simp [openElements, hframes])
    have hnew := h.insertChild hf f.index (.text value) (by simp)
    dsimp only
    split
    · exact hnew.bind fun r hr => hr.1.advanced
    · next id _ =>
      refine (allows_liveNode t id).bind fun n hn => ?_
      split
      · next old hold =>
        have hleaf : t.document.children id = [] := by
          simp [Document.children, Document.element?, hn, hold]
        have hset : (t.setDocument (t.document.setContent id (.text value))).Ordered :=
          h.reshape (.setContent hleaf (by simp)) (Nat.le_of_eq (Document.size_setContent ..).symm)
        exact hset.advanced
      · exact hnew.bind fun r hr => hr.1.advanced

theorem Ordered.updateElement (h : t.Ordered) (id : NodeId) {change : Element → Element}
    (hc : ∀ e, (change e).children = e.children) :
    (t.setDocument (t.document.updateElement id change)).Ordered :=
  h.reshape (.updateElement _ id hc) (Nat.le_of_eq (Document.size_updateElement ..).symm)

theorem Ordered.changeCurrent (h : t.Ordered) {change : Element → Element}
    (hc : ∀ e, (change e).children = e.children) :
    Allows (fun _ => True) Ordered (t.changeCurrent change) := by
  unfold KeyedDom.changeCurrent
  split
  · exact h
  · next f below _ =>
    exact (Allows.any _).bind fun _ _ => h.updateElement f.parent hc

theorem Ordered.setAttributes (h : t.Ordered) (attributes : List (String × String)) :
    Allows (fun _ => True) Ordered (t.setAttributes attributes) := by
  induction attributes generalizing t with
  | nil => exact h
  | cons a rest ih =>
    have hfirst : Allows (fun _ => True) Ordered (t.changeCurrent (.setAttribute a.1 a.2)) :=
      h.changeCurrent fun _ => rfl
    exact hfirst.bind fun t₁ h₁ => ih h₁

theorem Ordered.setInnerMarkup (h : t.Ordered) (id : NodeId) (markup : String) :
    Allows (fun _ => True) Ordered (t.setInnerMarkup id markup) := by
  refine (listedChildren_allows t id).bind fun children ⟨e, he, hchildren⟩ => ?_
  have hpruned : (t.setDocument ((t.document.setChildren id []).dropAll children)).Ordered :=
    h.prune he (by rw [hchildren, List.nil_append])
  have hraw : Ordered (t.setDocument (((t.document.setChildren id []).dropAll children).updateElement
      id fun e => { e with raw := some markup })) := hpruned.updateElement id fun _ => rfl
  exact hraw.change hraw.tree (Nat.le_refl _) (List.Sublist.refl _)

theorem Ordered.setComment (h : t.Ordered) (id : NodeId) (value : String) :
    (t.setComment id value).Ordered := by
  have hset := h.reshape (.setComment _ id value) (Nat.le_of_eq (Document.size_setComment ..).symm)
  refine hset.change ?_ ?_ ?_
  · rw [document_setComment]
    exact hset.tree
  · rw [document_setComment]
    exact Nat.le_refl _
  · rw [openElements, frames_setComment]
    exact List.Sublist.refl _

theorem Ordered.appendComment (h : t.Ordered) (p : NodeId) (value : String) :
    Allows (fun _ => True) (fun r => r.2.Ordered) (t.appendComment p value) := by
  unfold KeyedDom.appendComment
  split
  · exact h
  · next e he =>
    have hcreated : t.countCreated.Ordered := h.change h.tree (Nat.le_refl _) (List.Sublist.refl _)
    have hinsert := hcreated.insertChild (p := p) (Document.lt_size_of_element? he)
      e.children.length (.comment value) (by simp)
    exact hinsert.bind fun r hr => hr.1

theorem Ordered.endPatch (h : t.Ordered) : Allows (fun _ => True) Ordered t.endPatch := by
  have stop : ∀ t' : KeyedDom, t'.Ordered → Ordered { t' with frames := [] } := fun t' h' =>
    h'.change h'.tree (Nat.le_refl _) (List.nil_sublist _)
  unfold KeyedDom.endPatch
  dsimp only
  split
  · next f _ _ => exact (h.dropUnvisited f).bind fun t' ht' => stop t' ht'.1
  · exact stop t h

theorem Ordered.beginPatch (h : t.Ordered) {root : NodeId} (hroot : (root : Nat) < t.document.size)
    (mode : PatchMode) (rule : Key.MatchRule) :
    Allows (fun _ => True) Ordered (t.beginPatch root mode rule) := by
  have hframe : Allows (fun _ => True) (fun f => (f.parent : Nat) < t.document.size)
      (t.firstFrame root mode) := by
    cases mode with
    | inner => exact hroot
    | outer =>
      have hnode : Allows (fun _ => True) (fun n => t.document.node? root = some n)
          (t.liveNode root) := by
        unfold liveNode
        split
        · next n hn => exact hn
        · trivial
      refine hnode.bind fun n hn => ?_
      split
      · trivial
      · next p hp =>
        split
        · trivial
        · have hparent : t.document.parent? root = some p := by simp [Document.parent?, hn, hp]
          exact Nat.lt_trans (h.tree.older hparent) hroot
  refine hframe.bind fun f hf => ⟨h.tree, ?_, ?_⟩
  · exact List.pairwise_singleton _ _
  · simpa [openElements] using hf

theorem Ordered.apply (h : t.Ordered) {call : TargetCall} (hc : call.IsInner) :
    Allows (fun _ => True) (fun r => r.2.Ordered) (apply call t) := by
  have stayed : ∀ target, (t.skipTo target).Ordered := fun target => by
    refine h.change ?_ (Nat.le_of_eq (by rw [document_skipTo])) (by rw [openElements_skipTo])
    rw [document_skipTo]
    exact h.tree
  cases call with
  | beginPatch root mode rule => exact hc.elim
  | endPatch => exact h.endPatch.map fun _ hr => hr
  | openElement name key => exact h.openElement name key
  | closeElement => exact h.closeElement
  | text value => exact h.writeText value
  | setAttribute name value => exact (h.setAttributes _).map fun _ hr => hr
  | setProperty name value =>
    have hset : Allows (fun _ => True) Ordered (t.changeCurrent (.setProperty name value.toText)) :=
      h.changeCurrent fun _ => rfl
    exact hset.map fun _ hr => hr
  | skip => exact stayed fun _ count => count
  | skipNode => exact stayed fun index count => min (index + 1) count
  | applyAttributes => exact h
  | applyStatics attributes => exact (h.setAttributes attributes).map fun _ hr => hr
  | setInnerMarkup id markup => exact (h.setInnerMarkup id markup).map fun _ hr => hr
  | setComment id value => exact h.setComment id value
  | appendComment p value => exact h.appendComment p value

theorem Ordered.append (h : t.Ordered) {p : NodeId} (hp : (p : Nat) < t.document.size)
    {content : Content} (hc : ∀ e, content = .element e → e.children = []) :
    Allows (fun _ => True) (fun r => r.2.Ordered) (t.append p content) :=
  (h.insertChild hp _ content hc).mono fun _ hr => hr.1

theorem Ordered.remove (h : t.Ordered) (id : NodeId) :
    Allows (fun _ => True) Ordered (t.remove id) := by
  cases hp : t.document.parent? id with
  | none =>
    simp only [KeyedDom.remove, hp]
    exact h.change (treeBut_root h.tree hp).dropAll
      (Document.editing_sameParents.reshaping.dropAll _ _).size (List.Sublist.refl _)
  | some p =>
    simp only [KeyedDom.remove, hp]
    refine (listedChildren_allows t p).bind fun children hlisted => ?_
    obtain ⟨e, he, hchildren⟩ := hlisted
    refine h.prune he ?_
    rw [hchildren, ← Document.children_of_element? he]
    exact h.tree.perm_without (h.tree.mem_children hp)

theorem ordered_calls : CallInvariant (fun _ => True) fun t _ => t.Ordered where
  call _ hc h := h.apply hc
  recorded node _ h := h.updateElement node fun _ => rfl
  grows h _ := h
  created _ := trivial
  found _ _ := trivial
  attached {t g id c} root h _ _ := by
    have hdetached : (t.setDocument (RenderM.detach t.document id c.node root)).Ordered := by
      unfold RenderM.detach
      split
      · exact h
      · split
        · exact h.updateElement _ fun _ => rfl
        · exact h
    unfold attachedDocument
    dsimp only
    split
    · exact hdetached
    · exact hdetached.updateElement root fun _ => rfl

end KeyedDom

end KeyedRender

import KeyedRender.Proofs.Document.Thinning
import KeyedRender.Proofs.Render.Voicing
import KeyedRender.Proofs.Target.Served

/-!
# A keyed target that had nothing to begin with

On a target that began empty no element is left to be visited, whatever was done to it since, even
by steps that go behind the back of its renderer. Every element that is opened is a new one.
-/
namespace KeyedRender

namespace Document

/-- The children of a frame's element that are still to be visited are no elements. -/
structure Vacates (d : Document) (f : Frame) : Prop where
  parent_lt : f.parent < d.size
  child_lt : ∀ id ∈ d.children f.parent, id < d.size
  unvisited : ∀ id ∈ (d.children f.parent).drop f.index, d.element? id = none

namespace Vacates

variable {d d' : Document} {f : Frame}

theorem thins (h : d.Vacates f) (hd : d.Thins d') : d'.Vacates f where
  parent_lt := hd.size ▸ h.parent_lt
  child_lt id hid := hd.size ▸ h.child_lt id (hd.subset hid)
  unvisited id hid := hd.element (h.unvisited id (hd.subset_drop hid))

theorem skip (h : d.Vacates f) {k : Nat}
    (hk : f.index ≤ k ∨ (d.children f.parent).length ≤ k) : d.Vacates ⟨f.parent, k⟩ where
  parent_lt := h.parent_lt
  child_lt := h.child_lt
  unvisited id hid := by
    rcases hk with hk | hk
    · exact h.unvisited id (List.drop_subset_drop_left _ hk hid)
    · rw [List.drop_eq_nil_of_le hk] at hid
      cases hid

section Adopt

variable {p : NodeId} {e : Element} {position : Nat} {content : Content}
  (he : d.element? p = some e) (hempty : ∀ e', content = .element e' → e'.children = [])
include he

theorem unvisited_adopt (h : d.Vacates f) {id : NodeId}
    (hid : id ∈ (d.children f.parent).drop f.index) :
    (d.adopt p position content).element? id = none := by
  have hnone := h.unvisited id hid
  have hne : id ≠ p := by
    rintro rfl
    rw [he] at hnone
    cases hnone
  have hlt := h.child_lt id (List.mem_of_mem_drop hid)
  rw [element?_eq_of_node? (node?_adopt_ne hne (Nat.ne_of_lt hlt)), hnone]

include hempty

theorem adopt (h : d.Vacates f) {index : Nat}
    (hunvisited : ∀ id ∈ ((d.adopt p position content).children f.parent).drop index,
      (d.adopt p position content).element? id = none) :
    (d.adopt p position content).Vacates ⟨f.parent, index⟩ where
  parent_lt := by
    rw [size_adopt]
    exact Nat.lt_succ_of_lt h.parent_lt
  child_lt id hid := by
    rw [size_adopt]
    rw [children_adopt he hempty] at hid
    split at hid
    · next hp =>
      rcases List.eq_or_mem_of_mem_insertIdx hid with rfl | hid
      · exact Nat.lt_succ_self _
      · rw [← children_of_element? he, ← hp] at hid
        exact Nat.lt_succ_of_lt (h.child_lt id hid)
    · exact Nat.lt_succ_of_lt (h.child_lt id hid)
  unvisited := hunvisited

theorem adopt_ne (h : d.Vacates f) (hp : f.parent ≠ p) :
    (d.adopt p position content).Vacates f := by
  have hchildren : (d.adopt p position content).children f.parent = d.children f.parent := by
    rw [children_adopt he hempty, if_neg hp]
  exact h.adopt he hempty fun id hid => h.unvisited_adopt he (hchildren ▸ hid)

theorem adopt_next (h : d.Vacates f) (hp : f.parent = p) (hindex : f.index ≤ e.children.length) :
    (d.adopt p f.index content).Vacates ⟨f.parent, f.index + 1⟩ := by
  have hchildren : (d.adopt p f.index content).children f.parent =
      e.children.take f.index ++ d.size :: e.children.drop f.index := by
    rw [children_adopt he hempty, if_pos hp, KeyedDom.insertIdx_eq_take_append hindex]
  have hlength : (e.children.take f.index).length = f.index := by simp [hindex]
  have hdrop : ((d.adopt p f.index content).children f.parent).drop (f.index + 1) =
      (d.children f.parent).drop f.index := by
    rw [hchildren, hp, children_of_element? he, List.drop_append, hlength]
    simp [hlength]
  exact h.adopt he hempty fun id hid => h.unvisited_adopt he (hdrop ▸ hid)

theorem adopt_last (h : d.Vacates f) (hcontent : ∀ e', content ≠ .element e') :
    (d.adopt p e.children.length content).Vacates f := by
  by_cases hp : f.parent = p
  · have hchildren : (d.adopt p e.children.length content).children f.parent =
        d.children f.parent ++ [d.size] := by
      rw [children_adopt he hempty, if_pos hp, List.insertIdx_length_self, hp,
        children_of_element? he]
    refine h.adopt he hempty fun id hid => ?_
    rw [hchildren, List.drop_append] at hid
    rcases List.mem_append.1 hid with hid | hid
    · exact h.unvisited_adopt he hid
    · obtain rfl := List.mem_singleton.1 (List.mem_of_mem_drop hid)
      simp only [element?, content?, node?_adopt_size he]
      cases content with
      | element e' => exact absurd rfl (hcontent e')
      | _ => rfl
  · exact h.adopt_ne he hempty hp

end Adopt

end Vacates

end Document

namespace KeyedDom

structure Vacant (t : KeyedDom) : Prop where
  distinct : (t.frames.map Frame.parent).Nodup
  frames : ∀ f ∈ t.frames, t.document.Vacates f

def LeavesVacant {α : Type} (target : α → KeyedDom) (r : Except Fault α) : Prop :=
  Allows (fun _ => True) (fun a => (target a).Vacant) r

variable {t : KeyedDom} {f : Frame} {below : List Frame}

theorem allows_insertChild {p : NodeId} (hp : p ≠ t.document.size) (position : Nat)
    (content : Content) : Allows (fun _ => True) (fun r => ∃ e, t.document.element? p = some e ∧
      position ≤ e.children.length ∧
      r = (t.document.size, t.setDocument (t.document.adopt p position content)))
      (t.insertChild p position content) := by
  have hadd : (t.document.add (some p) content).2.element? p = t.document.element? p :=
    Document.element?_add _ _ _ hp
  cases he : t.document.element? p with
  | some e =>
    by_cases hpos : position ≤ e.children.length
    · rw [insertChild_eq he hpos]
      exact ⟨e, rfl, hpos, rfl⟩
    · have hlisted : (t.setDocument (t.document.add (some p) content).2).listedChildren p =
          .ok e.children := listedChildren_eq (hadd.trans he)
      simp only [insertChild, hlisted, bind, Except.bind, if_pos (Nat.lt_of_not_le hpos)]
      trivial
  | none =>
    have hlisted : ∀ children, (t.setDocument (t.document.add (some p) content).2).listedChildren p ≠
        .ok children := by
      intro children h
      unfold listedChildren at h
      rw [document_setDocument] at h
      split at h
      · next e' he' =>
        rw [Document.element?_eq_some_iff.2 he', he] at hadd
        cases hadd
      · cases h
      · cases h
    simp only [insertChild, bind, Except.bind]
    cases h : (t.setDocument (t.document.add (some p) content).2).listedChildren p with
    | error f => trivial
    | ok children => exact absurd h (hlisted children)

namespace Vacant

theorem congr (h : t.Vacant) {t' : KeyedDom} (hframes : t'.frames = t.frames)
    (hd : t.document.Thins t'.document) : t'.Vacant := by
  refine ⟨by rw [hframes]; exact h.distinct, fun g hg => ?_⟩
  rw [hframes] at hg
  exact (h.frames g hg).thins hd

section Frames

variable (h : t.Vacant) (hf : t.frames = f :: below)
include h hf

theorem head : t.document.Vacates f := h.frames f (by simp [hf])

theorem parent_ne {g : Frame} (hg : g ∈ below) : g.parent ≠ f.parent := by
  have hdistinct := h.distinct
  rw [hf, List.map_cons, List.nodup_cons] at hdistinct
  exact fun heq => hdistinct.1 (heq ▸ List.mem_map_of_mem hg)

theorem adopt {e : Element} (he : t.document.element? f.parent = some e)
    (hindex : f.index ≤ e.children.length) {content : Content}
    (hempty : ∀ e', content = .element e' → e'.children = []) {t' : KeyedDom}
    (hd : t'.document = t.document.adopt f.parent f.index content)
    (hframes : t'.frames = ⟨f.parent, f.index + 1⟩ :: below) : t'.Vacant := by
  have hdistinct := h.distinct
  rw [hf] at hdistinct
  refine ⟨by rw [hframes]; exact hdistinct, fun g hg => ?_⟩
  rw [hframes] at hg
  rw [hd]
  rcases List.mem_cons.1 hg with rfl | hg
  · exact (h.head hf).adopt_next he hempty rfl hindex
  · exact (h.frames g (by simp [hf, hg])).adopt_ne he hempty (h.parent_ne hf hg)

theorem changeIndex {k : Nat} (hk : f.index ≤ k ∨ (t.document.children f.parent).length ≤ k)
    {t' : KeyedDom} (hd : t.document.Thins t'.document)
    (hframes : t'.frames = ⟨f.parent, k⟩ :: below) : t'.Vacant := by
  have hdistinct := h.distinct
  rw [hf] at hdistinct
  refine ⟨by rw [hframes]; exact hdistinct, fun g hg => ?_⟩
  rw [hframes] at hg
  rcases List.mem_cons.1 hg with rfl | hg
  · exact ((h.head hf).skip hk).thins hd
  · exact (h.frames g (by simp [hf, hg])).thins hd

end Frames

theorem openElement (h : t.Vacant) (name key : String) :
    Allows (fun _ => True) (fun r => r.2.Vacant ∧ ∀ node, r.1 = some node →
      r.2.document.element? node = some (.new name key)) (t.openElement name key) := by
  unfold KeyedDom.openElement
  split
  · exact ⟨h, nofun⟩
  next f below hf =>
  -- No element is left to be found, so that a new one is inserted.
  have hplace : Allows (fun _ => True) (fun r => ∃ e, t.document.element? f.parent = some e ∧
      f.index ≤ e.children.length ∧ r = (t.document.size, t.countCreated.setDocument
        (t.document.adopt f.parent f.index (.element (.new name key)))))
      (t.place f name key) := by
    simp only [place, bind, Except.bind]
    cases hmatch : t.findMatch? name key ((t.document.children f.parent).drop f.index) with
    | error fault => trivial
    | ok offset? =>
      cases offset? with
      | none =>
        exact allows_insertChild (t := t.countCreated)
          (Nat.ne_of_lt (h.head hf).parent_lt) f.index _
      | some offset =>
        obtain ⟨id, e, hid, he⟩ := findMatch?_some hmatch
        have hunvisited := (h.head hf).unvisited id (List.mem_of_getElem? hid)
        rw [Document.element?_eq_some_iff.2 he] at hunvisited
        cases hunvisited
  refine hplace.bind fun r hr => ?_
  obtain ⟨e, he, hindex, rfl⟩ := hr
  have hempty := Document.children_of_new name key
  have hnew : (t.document.adopt f.parent f.index (.element (.new name key))).element?
      t.document.size = some (.new name key) := by
    simp [Document.element?, Document.content?, Document.node?_adopt_size he]
  have hvisited : KeyedDom.Vacant
      { t with
        document := t.document.adopt f.parent f.index (.element (.new name key))
        frames := ⟨f.parent, f.index + 1⟩ :: below } := h.adopt hf he hindex hempty rfl rfl
  have hframes : ∀ g ∈ (⟨f.parent, f.index + 1⟩ : Frame) :: below,
      g.parent ≠ t.document.size := by
    intro g hg
    rcases List.mem_cons.1 hg with rfl | hg
    · exact Nat.ne_of_lt (h.head hf).parent_lt
    · exact Nat.ne_of_lt (h.frames g (by simp [hf, hg])).parent_lt
  have hchildren : (t.document.adopt f.parent f.index (.element (.new name key))).children
      t.document.size = [] := Document.children_of_element? hnew
  refine ⟨⟨?_, ?_⟩, fun node hnode => ?_⟩
  · simp only [frames_setDocument, countCreated, hf, advance, List.map_cons, List.nodup_cons]
    have hdistinct := hvisited.distinct
    rw [List.map_cons, List.nodup_cons] at hdistinct
    refine ⟨fun hmem => ?_, hdistinct⟩
    rcases List.mem_cons.1 hmem with hself | hmem
    · exact hframes _ (List.mem_cons_self ..) hself.symm
    · obtain ⟨g, hg, hparent⟩ := List.mem_map.1 hmem
      exact hframes g (List.mem_cons_of_mem _ hg) hparent
  · simp only [document_setDocument, frames_setDocument, countCreated, hf, advance,
      List.forall_mem_cons]
    refine ⟨⟨?_, ?_, ?_⟩, List.forall_mem_cons.1 hvisited.frames⟩
    · simp
    · simp [hchildren]
    · simp [hchildren]
  · obtain rfl := Option.some.inj hnode
    exact hnew

theorem dropUnvisited (t : KeyedDom) (f : Frame) : Allows (fun _ => True)
    (fun t' => t'.frames = t.frames ∧ t.document.Thins t'.document) (t.dropUnvisited f) := by
  unfold KeyedDom.dropUnvisited listedChildren
  split
  · next e he =>
    have hchildren : t.document.children f.parent = e.children :=
      Document.children_of_element? (Document.element?_eq_some_iff.2 he)
    simp only [bind, Except.bind]
    split
    · trivial
    · refine ⟨rfl, ?_⟩
      rw [← hchildren]
      exact (Document.Thins.setChildren ..).trans (.dropAll _ _)
  · trivial
  · trivial

theorem closeElement (h : t.Vacant) : LeavesVacant Prod.snd t.closeElement := by
  unfold KeyedDom.closeElement
  split
  · next f g below hf =>
    refine (dropUnvisited t f).bind fun t' ht' => ?_
    have hdistinct := h.distinct
    rw [hf, List.map_cons, List.nodup_cons] at hdistinct
    exact ⟨hdistinct.2, fun k hk => (h.frames k (by simp [hf, List.mem_cons.1 hk])).thins ht'.2⟩
  · exact h

theorem writeText (h : t.Vacant) (value : String) : LeavesVacant Prod.snd (t.writeText value) := by
  unfold KeyedDom.writeText
  split
  · exact h
  next f below hf =>
  have hnew : LeavesVacant (fun r => { r.2 with frames := advance r.2.frames })
      (t.insertChild f.parent f.index (.text value)) := by
    refine (allows_insertChild (Nat.ne_of_lt (h.head hf).parent_lt) f.index _).mono ?_
    rintro r ⟨e, he, hindex, rfl⟩
    exact h.adopt hf he hindex (by simp) rfl (by simp [hf, advance])
  dsimp only
  split
  · exact hnew.bind fun r hr => hr
  · next id hid =>
    unfold liveNode
    split
    · next n hn =>
      simp only [bind, Except.bind]
      split
      · next old hold =>
        have hcontent : t.document.element? id = none := by
          simp [Document.element?, Document.content?, hn, hold]
        exact h.changeIndex hf (.inl (Nat.le_succ _)) (Document.Thins.setContent hcontent (by simp))
          (by simp [hf, advance])
      · exact hnew.bind fun r hr => hr
    · trivial

theorem changeCurrent (t : KeyedDom) {change : Element → Element}
    (hc : ∀ e, (change e).children = e.children) : Allows (fun _ => True)
    (fun t' => t'.frames = t.frames ∧ t.document.Thins t'.document) (t.changeCurrent change) := by
  unfold KeyedDom.changeCurrent
  split
  · exact ⟨rfl, .refl _⟩
  · exact (Allows.any _).bind fun _ _ => ⟨rfl, .updateElement _ _ hc⟩

theorem setAttributes (h : t.Vacant) (attributes : List (String × String)) :
    LeavesVacant id (t.setAttributes attributes) := by
  induction attributes generalizing t with
  | nil => exact h
  | cons a rest ih =>
    have hsame : ∀ e : Element, (e.setAttribute a.1 a.2).children = e.children := fun _ => rfl
    refine (changeCurrent t hsame).bind fun t' ht' => ?_
    exact ih (h.congr ht'.1 ht'.2)

theorem skipTo (h : t.Vacant) {target : Nat → Nat → Nat}
    (htarget : ∀ index count, index ≤ target index count ∨ count ≤ target index count) :
    (t.skipTo target).Vacant := by
  unfold KeyedDom.skipTo
  split
  · exact h
  · next f below hf => exact h.changeIndex hf (htarget _ _) (.refl _) rfl

theorem setInnerMarkup (h : t.Vacant) (id : NodeId) (markup : String) :
    LeavesVacant (fun t => t) (t.setInnerMarkup id markup) := by
  unfold KeyedDom.setInnerMarkup
  refine (Allows.any _).bind fun children _ => h.congr rfl ?_
  have hnil : t.document.Thins (t.document.setChildren id []) := .setChildren _ _ 0
  exact (hnil.trans (.dropAll _ _)).trans (.updateElement _ _ fun _ => rfl)

theorem appendComment (h : t.Vacant) (parent : NodeId) (value : String) :
    LeavesVacant Prod.snd (t.appendComment parent value) := by
  unfold KeyedDom.appendComment
  split
  · exact h
  next e he =>
  have hne : parent ≠ t.document.size := Nat.ne_of_lt (Document.lt_size_of_element? he)
  refine (allows_insertChild (t := t.countCreated) hne _ _).bind ?_
  rintro r ⟨e', he', -, rfl⟩
  obtain rfl := Option.some.inj (he.symm.trans he')
  exact ⟨h.distinct, fun f hf => (h.frames f hf).adopt_last he (by simp) (by simp)⟩

theorem endPatch (t : KeyedDom) : LeavesVacant (fun t => t) t.endPatch := by
  unfold KeyedDom.endPatch
  have hnone : ∀ t' : KeyedDom, KeyedDom.Vacant { t' with frames := [] } :=
    fun t' => ⟨List.nodup_nil, nofun⟩
  split
  · exact (Allows.any _).bind fun t' _ => hnone t'
  · exact hnone t

theorem apply (h : t.Vacant) {call : TargetCall} (hcall : call.IsInner) :
    LeavesVacant Prod.snd (apply call t) := by
  cases call with
  | beginPatch root mode rule => exact hcall.elim
  | endPatch => exact (endPatch t).map fun _ h => h
  | openElement name key => exact (h.openElement name key).mono fun _ hr => hr.1
  | closeElement => exact h.closeElement
  | text value => exact h.writeText value
  | setAttribute name value => exact (h.setAttributes _).map fun _ h => h
  | setProperty name value =>
    have hsame : ∀ e : Element, (e.setProperty name value.toText).children = e.children :=
      fun _ => rfl
    exact (changeCurrent t hsame).map fun _ ht => h.congr ht.1 ht.2
  | skip => exact h.skipTo fun _ _ => .inr (Nat.le_refl _)
  | skipNode =>
    have hnext : ∀ index count : Nat,
        index ≤ min (index + 1) count ∨ count ≤ min (index + 1) count := by omega
    exact h.skipTo hnext
  | applyAttributes => exact h
  | applyStatics attributes => exact (h.setAttributes attributes).map fun _ h => h
  | setInnerMarkup id markup => exact (h.setInnerMarkup id markup).map fun _ h => h
  | setComment id value => exact h.congr (by simp) (by rw [document_setComment]; exact .setComment ..)
  | appendComment parent value => exact h.appendComment parent value

end Vacant

def Bare (node : NodeId) (t : KeyedDom) : Prop :=
  ∃ e, t.document.element? node = some e ∧ e.children = [] ∧ e.raw = none

namespace Bare

variable {node : NodeId}

theorem hasContent (h : Bare node t) : t.hasContent node = .ok false := by
  obtain ⟨e, he, hchildren, hraw⟩ := h
  have hlive : t.liveNode node = .ok ⟨t.document.parent? node, .element e⟩ := by
    obtain ⟨n, hn, hcontent⟩ := Option.map_eq_some_iff.1 (Document.element?_eq_some_iff.1 he)
    simp only [liveNode, hn, Document.parent?, Option.bind_some, ← hcontent]
  simp only [KeyedDom.hasContent, Document.children_of_element? he, hchildren, hlive, hraw, bind,
    Except.bind, List.isEmpty_nil, Bool.not_true, Bool.false_eq_true, if_false, Option.isSome_none]
  rfl

theorem changeCurrent (h : Bare node t) {change : Element → Element}
    (hc : ∀ e, (change e).children = e.children ∧ (change e).raw = e.raw) :
    Allows (fun _ => True) (Bare node) (t.changeCurrent change) := by
  obtain ⟨e, he, hchildren, hraw⟩ := h
  unfold KeyedDom.changeCurrent
  split
  · exact ⟨e, he, hchildren, hraw⟩
  · next f below hf =>
    refine (Allows.any _).bind fun _ _ => ?_
    by_cases hnode : node = f.parent
    · refine ⟨change e, ?_, (hc e).1.trans hchildren, (hc e).2.trans hraw⟩
      rw [document_setDocument, Document.element?_updateElement, if_pos hnode, ← hnode, he]
      rfl
    · refine ⟨e, ?_, hchildren, hraw⟩
      rw [document_setDocument, Document.element?_updateElement, if_neg hnode, he]

end Bare

def ground : Ground KeyedDom where
  covered := false
  mayBreak := True
  requeues := True
  holds := Vacant
  opened := Bare
  calls _ _ _ hcall h := h.apply hcall
  opens _ t name key h := (h.openElement name key).mono fun r hr node hnode =>
    ⟨.new name key, hr.2 node hnode, rfl, rfl⟩
  assigns _ t node name value _ h := by
    have hsame : ∀ e : Element, (e.setAttribute name value).children = e.children ∧
        (e.setAttribute name value).raw = e.raw := fun _ => ⟨rfl, rfl⟩
    have hset : Allows (fun _ => True) (Bare node) (t.setAttributes [(name, value)]) :=
      (h.changeCurrent hsame).bind fun _ ht => ht
    exact hset.map fun _ ht => ht
  empty _ _ _ _ h := h.hasContent
  inspects _ _ _ _ := Allows.any _
  records _ _ node change h := h.congr rfl (.updateRecord _ node change)
  attaches _ _ id c node h := h.congr rfl (.attachedDocument _ id c node)
  pointer _ _ _ h := absurd trivial h

theorem vacant_begun (rule : Key.MatchRule) : (KeyedDom.new.begun 0 rule).Vacant := by
  refine ⟨List.nodup_singleton _, fun f hf => ?_⟩
  obtain rfl := List.mem_singleton.1 hf
  have hnil : (KeyedDom.new.begun 0 rule).document.children 0 = [] := rfl
  refine ⟨Nat.zero_lt_one, ?_, ?_⟩ <;> simp [hnil]

end KeyedDom

end KeyedRender

import KeyedRender.Proofs.Target.Ordered
import KeyedRender.Proofs.Target.Served

/-!
# Elements that are passed by

An element that is found again and closed behind all of its children is moved to the pointer, and
the pointer is put behind it. Its siblings keep their order, and what is below it stays as it was.
-/
namespace KeyedRender

open Document (IsTree TreeBut)

namespace Document

variable {d d' d'' : Document} {node : NodeId} {change change' : Element → Element}

structure Retouches (d : Document) (node : NodeId) (change : Element → Element) (d' : Document) :
    Prop where
  element : ∀ {p e}, d.node? node = some ⟨p, .element e⟩ →
    d'.node? node = some ⟨p, .element (change e)⟩
  other : ∀ {id}, id ≠ node → d'.node? id = d.node? id

namespace Retouches

theorem refl (d : Document) (node : NodeId) : d.Retouches node id d := ⟨id, fun _ => rfl⟩

theorem of_fixed (h : ∀ {p e}, d.node? node = some ⟨p, .element e⟩ → change e = e) :
    d.Retouches node change d where
  element hn := by rw [hn, h hn]
  other _ := rfl

theorem trans (h : d.Retouches node change d') (h' : d'.Retouches node change' d'') :
    d.Retouches node (change' ∘ change) d'' :=
  ⟨fun hn => h'.element (h.element hn), fun hid => (h'.other hid).trans (h.other hid)⟩

theorem updateElement (d : Document) (node : NodeId) (change : Element → Element) :
    d.Retouches node change (d.updateElement node change) where
  element {p e} hn := by
    have he : d.element? node = some e := by simp [element?, content?, hn]
    rw [Document.updateElement, he]
    dsimp only
    rw [node?_setContent, if_pos rfl, hn]
    rfl
  other hid := node?_updateElement_ne change hid

end Retouches

theorem node?_of_element? {e : Element} (h : d.element? node = some e) :
    ∃ p, d.node? node = some ⟨p, .element e⟩ := by
  obtain ⟨⟨p, content⟩, hn, hcontent⟩ := Option.map_eq_some_iff.1 (element?_eq_some_iff.1 h)
  cases hcontent
  exact ⟨p, hn⟩

theorem element?_of_node? {p : Option NodeId} {e : Element}
    (h : d.node? node = some ⟨p, .element e⟩) : d.element? node = some e := by
  simp [element?, content?, h]

end Document

theorem erase_moved {l visited before after : List NodeId} {node : NodeId} (hl : l.Nodup)
    (hsplit : l = visited ++ (before ++ node :: after)) :
    (visited ++ node :: (before ++ after)).erase node = l.erase node := by
  subst hsplit
  have hvisited : node ∉ visited := fun hmem =>
    (List.nodup_append.1 hl).2.2 node hmem node (by simp) rfl
  have hbefore : node ∉ before := fun hmem =>
    (List.nodup_append.1 (List.nodup_append.1 hl).2.1).2.2 node hmem node (by simp) rfl
  rw [List.erase_append_right _ hvisited, List.erase_append_right _ hvisited,
    List.erase_append_right _ hbefore, List.erase_cons_head, List.erase_cons_head]

namespace KeyedDom

variable {t t₁ t₂ : KeyedDom} {node : NodeId} {name key : String} {change : Element → Element}

theorem setAttribute_eq {f : Frame} {below : List Frame} {e : Element} {value : String}
    (hf : t.frames = f :: below) (he : t.document.element? f.parent = some e) :
    apply (.setAttribute name value) t = .ok (none,
      t.setDocument (t.document.updateElement f.parent (.setAttribute name value))) := by
  obtain ⟨p, hn⟩ := Document.node?_of_element? he
  simp only [apply, setAttributes, List.foldlM_cons, List.foldlM_nil, changeCurrent, hf,
    liveNode_eq hn, bind, Except.bind, pure, Except.pure, Except.map]

theorem hasContent_eq {e : Element} (he : t.document.element? node = some e) :
    t.hasContent node = .ok (!e.children.isEmpty || e.raw.isSome) := by
  obtain ⟨p, hn⟩ := Document.node?_of_element? he
  rw [hasContent, Document.children_of_element? he]
  cases hempty : e.children.isEmpty with
  | false => rfl
  | true => simp [liveNode_eq hn, bind, Except.bind, pure, Except.pure]

/-- An element that was not visited yet stands at the pointer, which is put behind it, and is
changed itself. Nothing else happens to the target. -/
structure PassesBy (t : KeyedDom) (f : Frame) (node : NodeId) (change : Element → Element)
    (t' : KeyedDom) : Prop where
  rest : t' = { t with document := t'.document, frames := t'.frames }
  frames : ∃ below, t.frames = f :: below ∧
    t'.frames = { f with index := f.index + 1 } :: below
  unvisited : node ∈ (t.document.children f.parent).drop f.index
  position : (t'.document.children f.parent)[f.index]? = some node
  siblings : (t'.document.children f.parent).erase node =
    (t.document.children f.parent).erase node
  self : ∃ p e, t.document.node? node = some ⟨p, .element e⟩ ∧
    t'.document.node? node = some ⟨p, .element (change e)⟩
  within : ∀ id, t.document.Below node id → id ≠ node → t'.document.node? id = t.document.node? id
  parent : ∃ p e l, t.document.node? f.parent = some ⟨p, .element e⟩ ∧
    t'.document.node? f.parent = some ⟨p, .element { e with children := l }⟩
  elsewhere : ∀ id, id ≠ node → id ≠ f.parent → t'.document.node? id = t.document.node? id

theorem openElement_found_of_isLive (hlive : t.document.isLive node = true)
    (h : t.openElement name key = .ok (some node, t₁)) :
    ∃ f below before after e, t.frames = f :: below ∧
      (t.document.children f.parent).drop f.index = before ++ node :: after ∧
      t.document.element? node = some e ∧
      t₁ = { t with
        document := t.document.setChildren f.parent
          ((t.document.children f.parent).take f.index ++ node :: (before ++ after))
        frames := ⟨node, 0⟩ :: { f with index := f.index + 1 } :: below } := by
  unfold openElement at h
  split at h
  · cases h
  next f below hframes =>
  cases hplace : t.place f name key with
  | error fault =>
    rw [hplace] at h
    cases h
  | ok r =>
    rw [hplace] at h
    cases h
    rcases place_cases hplace with ⟨before, after, e, hsplit, he, heq⟩ | hnew
    · refine ⟨f, below, before, after, e, hframes, hsplit, he, ?_⟩
      rw [heq, frames_setDocument, hframes]
      rfl
    · obtain ⟨hsize, -⟩ := insertChild_ok hnew
      obtain ⟨n, hn⟩ := Document.isLive_iff.1 hlive
      exact absurd (Document.lt_size_of_node? hn) (Nat.not_lt.2 (Nat.le_of_eq hsize.symm))

theorem openElement_new_of_not_isLive (h : t.Ordered) (hlive : t.document.isLive node = false)
    (hopen : t.openElement name key = .ok (some node, t₁)) :
    t₁.document.element? node = some (.new name key) := by
  unfold openElement at hopen
  split at hopen
  · cases hopen
  next f below hframes =>
  have hparent : (f.parent : Nat) < t.document.size := h.known _ (by simp [openElements, hframes])
  cases hplace : t.place f name key with
  | error fault =>
    rw [hplace] at hopen
    cases hopen
  | ok r =>
    rw [hplace] at hopen
    cases hopen
    rcases place_cases hplace with ⟨_, _, e, -, he, -⟩ | hnew
    · rw [Document.isLive_of_element? he] at hlive
      cases hlive
    · have hinsert := insertChild_allows t.countCreated hparent f.index (.element (.new name key))
      rw [hnew] at hinsert
      obtain ⟨e, he, -, heq⟩ := hinsert
      obtain ⟨hid, hdocument⟩ := Prod.mk.inj heq
      refine Document.element?_of_node? (p := some f.parent) ?_
      rw [hdocument, hid]
      exact Document.node?_adopt_size he

theorem passesBy_of_openElement (htree : t.document.IsTree)
    (hlive : t.document.isLive node = true)
    (hopen : t.openElement name key = .ok (some node, t₁))
    (hrest : t₂ = { t₁ with document := t₂.document })
    (hretouch : t₁.document.Retouches node change t₂.document) :
    ∃ t' f, (t₂.skipTo fun _ count => count).closeElement = .ok (some node, t') ∧
      t.PassesBy f node change t' := by
  obtain ⟨f, below, before, after, e, hframes, hsplit, he, rfl⟩ :=
    openElement_found_of_isLive hlive hopen
  have hmem : node ∈ t.document.children f.parent := List.mem_of_mem_drop (by rw [hsplit]; simp)
  have hne : node ≠ f.parent := Nat.ne_of_gt (htree.lt hmem)
  obtain ⟨e', he', -⟩ := Document.element?_of_mem_children hmem
  obtain ⟨q, hparent⟩ := Document.node?_of_element? he'
  obtain ⟨p, hself⟩ := Document.node?_of_element? he
  -- Three updates follow: of the list that the element is moved in, of the element by the change,
  -- and of its own list when it is closed. Each leaves all other nodes alone.
  have hmoved := Document.Retouches.updateElement t.document f.parent fun e =>
    { e with children :=
      (t.document.children f.parent).take f.index ++ node :: (before ++ after) }
  have hopened : t₂.document.node? node = some ⟨p, .element (change e)⟩ :=
    hretouch.element ((hmoved.other hne).trans hself)
  have hlist : t₂.frames = ⟨node, 0⟩ :: { f with index := f.index + 1 } :: below := by rw [hrest]
  refine ⟨_, f, closeElement_skipTo hlist (Document.element?_of_node? hopened), ?_⟩
  have hclosed := Document.Retouches.updateElement t₂.document node fun e' =>
    { e' with children := (change e).children }
  have hsame : ∀ id, id ≠ node → id ≠ f.parent →
      (t₂.document.setChildren node (change e).children).node? id = t.document.node? id :=
    fun id hid hidp => (hclosed.other hid).trans ((hretouch.other hid).trans (hmoved.other hidp))
  have hlast : (t₂.document.setChildren node (change e).children).node? f.parent =
      some ⟨q, .element { e' with children :=
        (t.document.children f.parent).take f.index ++ node :: (before ++ after) }⟩ :=
    (hclosed.other hne.symm).trans ((hretouch.other hne.symm).trans (hmoved.element hparent))
  have hchildren := Document.children_of_element? (Document.element?_of_node? hlast)
  have hwhole : t.document.children f.parent =
      (t.document.children f.parent).take f.index ++ (before ++ node :: after) := by
    rw [← hsplit, List.take_append_drop]
  have hvisited : ((t.document.children f.parent).take f.index).length = f.index := by
    have hlength := congrArg List.length hsplit
    simp only [List.length_drop, List.length_append, List.length_cons] at hlength
    exact List.length_take_of_le (by omega)
  exact {
    rest := by rw [hrest]
    frames := ⟨below, hframes, rfl⟩
    unvisited := by rw [hsplit]; simp
    position := by
      rw [hchildren, List.getElem?_append_right (Nat.le_of_eq hvisited), hvisited, Nat.sub_self]
      rfl
    siblings := by rw [hchildren, erase_moved (TreeBut.nodup htree f.parent) hwhole]
    self := ⟨p, e, hself, hclosed.element hopened⟩
    within := fun id hbelow hid => hsame id hid fun hidp => by
      have hle := hbelow.le (TreeBut.pointsLater htree)
      exact absurd (hidp ▸ htree.lt hmem) (Nat.not_lt.2 hle)
    parent := ⟨q, e', _, hparent, hlast⟩
    elsewhere := hsame }

end KeyedDom

end KeyedRender

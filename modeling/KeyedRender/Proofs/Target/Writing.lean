import KeyedRender.Proofs.Target.Drawing
import KeyedRender.Target.MarkupWriter

/-!
# The markup target draws

A markup target puts everything behind what it has, so that all children of its open elements
count as visited.
-/
namespace KeyedRender

theorem Drawn.framed {d : Document} {root : NodeId} {frames : List Frame} {sk : Sketch}
    (h : Drawn d root frames sk) : Framed d frames := by
  have fits : ∀ {level : Level} {f : Frame}, level.ShownAt d f → f.Fits d := by
    rintro level f ⟨e, he, hindex, -⟩
    exact ⟨by rw [he]; rfl, by rwa [Document.children_of_element? he]⟩
  induction h with
  | base hshown => exact .base (fits hshown)
  | nested hshown hchild _ _ ih =>
    refine .nested (fits hshown) (Nat.succ_pos _) hchild (ih.replace ?_)
    exact (List.getElem?_eq_some_iff.1 hchild).1

namespace MarkupWriter

/-- A target that draws behind everything it has: all children of open elements were visited. -/
structure Draft (w : MarkupWriter) (f : Frame) (below : List Frame) (sk : Sketch) : Prop where
  tree : w.document.IsTree
  opened : (f :: below).map Frame.parent = w.opened
  full : ∀ g ∈ f :: below, (w.document.children g.parent).length ≤ g.index
  drawn : Drawn w.document root (f :: below) sk

variable {w : MarkupWriter} {f : Frame} {below : List Frame} {sk : Sketch}

section Open

variable {top : NodeId} {outer : List NodeId} (hopened : w.opened = top :: outer)

include hopened

theorem current?_of_opened : w.current? = some top := by
  rw [current?, hopened]
  rfl

theorem append_eq (content : Content) : w.append content = w.appendTo (some top) content := by
  rw [append, current?_of_opened hopened]

theorem setAttribute_eq (name value : String) : w.setAttribute name value =
    w.setDocument (w.document.updateElement top (Element.setAttribute name value)) := by
  simp only [setAttribute, current?_of_opened hopened]

end Open

theorem document_appendTo {p : NodeId} {e : Element} (he : w.document.element? p = some e)
    (content : Content) :
    (w.appendTo (some p) content).2.document = w.document.adopt p e.children.length content := by
  have hne : p ≠ w.document.size := Nat.ne_of_lt (Document.lt_size_of_element? he)
  have hadd : (w.document.add (some p) content).2.element? p = some e := by
    rw [Document.element?_add _ _ _ hne, he]
  simp only [appendTo, setDocument, Document.adopt, Document.setChildren, Document.updateElement,
    hadd, Document.children_of_element? he, List.insertIdx_length_self, Document.add_fst]

namespace Draft

theorem element (h : w.Draft f below sk) :
    ∃ e, w.document.element? f.parent = some e ∧ f.index = e.children.length := by
  obtain ⟨e, he, hindex, -⟩ := h.drawn.head
  have hfull := h.full f (by simp)
  rw [Document.children_of_element? he] at hfull
  exact ⟨e, he, by omega⟩

theorem full_below (h : w.Draft f below sk) {d : Document}
    (hd : ∀ id, id ≠ f.parent → d.children id = w.document.children id) :
    ∀ g ∈ below, (d.children g.parent).length ≤ g.index := by
  intro g hg
  rw [hd g.parent (h.drawn.framed.parent_ne h.tree g hg)]
  exact h.full g (by simp [hg])

theorem appended (h : w.Draft f below sk) {content : Content}
    (hempty : ∀ e, content = .element e → e.children = []) :
    ∃ d, (w.append content).2.document = d ∧ d.IsTree ∧
      Drawn d root (f :: below) sk ∧ (d.children f.parent)[f.index]? = some w.document.size ∧
      (d.children f.parent).length = f.index + 1 ∧ d.content? w.document.size = some content ∧
      ∀ g ∈ below, (d.children g.parent).length ≤ g.index := by
  obtain ⟨e, he, hindex⟩ := h.element
  have hlist : ∀ id, (w.document.adopt f.parent f.index content).children id = _ :=
    Document.children_adopt he hempty
  refine ⟨w.document.adopt f.parent f.index content, ?_, h.tree.adopt he hempty (by omega),
    h.drawn.revised h.tree (.adopt h.tree he hempty (by omega)), ?_, ?_, ?_,
    h.full_below fun id hid => ?_⟩
  · rw [append_eq h.opened.symm, document_appendTo he, hindex]
  · rw [hlist, if_pos rfl, hindex, List.insertIdx_length_self]
    simp
  · rw [hlist, if_pos rfl, hindex, List.insertIdx_length_self]
    simp
  · simp [Document.content?, Document.node?_adopt_size he]
  · rw [hlist, if_neg hid]

theorem openElement (h : w.Draft f below sk) (name : String) :
    (w.openElement name).2.Draft ⟨w.document.size, 0⟩ ({ f with index := f.index + 1 } :: below)
      (sk.opened name) := by
  have hempty : ∀ e, Content.element (.new name "") = .element e → e.children = [] := by
    rintro _ ⟨⟩
    rfl
  obtain ⟨d, hd, htree, hdrawn, hchild, hlength, hcontent, hbelow⟩ := h.appended hempty
  have hopened := h.opened
  have hnew : d.element? w.document.size = some (.new name "") :=
    Document.element?_eq_some_iff.2 hcontent
  subst hd
  refine ⟨htree, ?_, ?_, hdrawn.opened hchild hnew⟩
  · simpa [MarkupWriter.openElement, append, appendTo, setDocument] using hopened
  · have hempty' := Document.children_of_element? hnew
    refine List.forall_mem_cons.2 ⟨?_, List.forall_mem_cons.2 ⟨Nat.le_of_eq hlength, hbelow⟩⟩
    exact Nat.le_of_eq (congrArg List.length hempty')

theorem writeText (h : w.Draft f below sk) (value : String) :
    (w.append (.text value)).2.Draft { f with index := f.index + 1 } below
      (sk.written value) := by
  have hempty : ∀ e, Content.text value = .element e → e.children = [] := by simp
  obtain ⟨d, hd, htree, hdrawn, hchild, hlength, hcontent, hbelow⟩ := h.appended hempty
  have hopened := h.opened
  subst hd
  refine ⟨htree, ?_, List.forall_mem_cons.2 ⟨Nat.le_of_eq hlength, hbelow⟩,
    hdrawn.added htree hchild (.text hcontent .nil)⟩
  simpa [append, appendTo, setDocument] using hopened

theorem closeElement {g : Frame} (h : w.Draft f (g :: below) sk) :
    w.closeElement.2.Draft g below sk.closed := by
  have hopened : w.opened = f.parent :: g.parent :: below.map Frame.parent := h.opened.symm
  have hclose : w.closeElement.2 = { w with opened := w.opened.tail } := by
    simp [MarkupWriter.closeElement, hopened]
  rw [hclose]
  exact ⟨h.tree, by simp [hopened], fun k hk => h.full k (by simp [List.mem_cons.1 hk]),
    h.drawn.closed h.tree (h.full f (by simp))⟩

theorem setAttribute (h : w.Draft f below sk) (name value : String) :
    (w.setAttribute name value).Draft f below (sk.assigned name value) := by
  have hshape : Document.SameShape w.document
      (w.document.updateElement f.parent (Element.setAttribute name value)) :=
    .updateElement _ _ fun _ => rfl
  rw [setAttribute_eq h.opened.symm]
  refine ⟨h.tree.congr hshape, h.opened, fun g hg => ?_, h.drawn.assigned h.tree name value⟩
  exact (congrArg List.length (hshape.children g.parent)).trans_le (h.full g hg)

theorem setAttributes (h : w.Draft f below sk) (attributes : List (String × String)) :
    (attributes.foldl (fun w (name, value) => w.setAttribute name value) w).Draft f below
      (sk.assignedAll attributes) := by
  induction attributes generalizing w sk with
  | nil => exact h
  | cons a rest ih => exact ih (h.setAttribute a.1 a.2)

theorem shows_children (h : w.Draft f below sk) (hclosed : sk.outer = []) :
    w.document.Shows (w.document.children root) sk.level.shapes := by
  obtain ⟨level, outer⟩ := sk
  cases hclosed
  have hdrawn := h.drawn
  have hfull := h.full f (by simp)
  cases hdrawn with
  | base hshown =>
    obtain ⟨e, he, -, -, hshows⟩ := hshown
    rw [Document.children_of_element? he] at hfull ⊢
    rwa [List.take_of_length_le hfull] at hshows

end Draft

theorem draft_new : new.Draft ⟨root, 0⟩ [] .blank where
  tree := Document.isTree_single "div"
  opened := rfl
  full := by simp [new, Document.children_single]
  drawn := .base ⟨.new "div" "", rfl, Nat.le_refl _, by simp [Carries, Level.blank],
    .nil⟩

theorem draws : Draws (τ := MarkupWriter) fun sk w _ => ∃ f below, w.Draft f below sk where
  opened name key h := by
    obtain ⟨f, below, h⟩ := h
    exact ⟨_, _, h.openElement name⟩
  closed hopen h := by
    obtain ⟨f, below, h⟩ := h
    cases below with
    | nil =>
      have hdrawn := h.drawn
      cases hdrawn
      exact absurd rfl hopen
    | cons g below => exact ⟨g, below, h.closeElement⟩
  written value h := by
    obtain ⟨f, below, h⟩ := h
    exact ⟨_, _, h.writeText value⟩
  assigned attributes h := by
    obtain ⟨f, below, h⟩ := h
    exact ⟨f, below, h.setAttributes attributes⟩
  attributed name value h := by
    obtain ⟨f, below, h⟩ := h
    exact ⟨f, below, h.setAttribute name value⟩
  property _ _ h := h
  applied h := h

end MarkupWriter

end KeyedRender

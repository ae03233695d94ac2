import KeyedRender.Proofs.Document.Attaching
import KeyedRender.Proofs.Render.Voicing
import KeyedRender.Target.MarkupWriter

/-!
# Targets to be heard on

A markup target never breaks, and an element that was just opened is empty there. A layer hides
its target, which stays as it is.
-/
namespace KeyedRender

open RenderTarget (apply document withDocument)

def Ground.under {τ : Type} [RenderTarget τ] (mayBreak requeues : Prop) (target : τ) :
    Ground τ where
  covered := true
  mayBreak := mayBreak
  requeues := requeues
  holds t := t = target
  opened _ _ := False
  calls := nofun
  opens := nofun
  assigns := nofun
  empty := nofun
  inspects := nofun
  records := nofun
  attaches := nofun
  pointer := nofun

namespace MarkupWriter

def InBounds (w : MarkupWriter) : Prop := ∀ id ∈ w.opened, id < w.document.size

namespace InBounds

variable {w : MarkupWriter}

theorem new : MarkupWriter.new.InBounds := by
  simp [InBounds, MarkupWriter.new, root, Document.single, Document.size]

theorem grown (h : w.InBounds) {w' : MarkupWriter} (hopened : w'.opened ⊆ w.opened)
    (hsize : w.document.size ≤ w'.document.size) : w'.InBounds :=
  fun id hid => Nat.lt_of_lt_of_le (h id (hopened hid)) hsize

theorem setDocument (h : w.InBounds) {d : Document} (hsize : w.document.size ≤ d.size) :
    (w.setDocument d).InBounds := h.grown (List.Subset.refl _) hsize

theorem closeAll (h : w.InBounds) : w.closeAll.InBounds :=
  h.grown (List.drop_subset ..) (Nat.le_refl _)

theorem closeElement (h : w.InBounds) : w.closeElement.2.InBounds := by
  unfold MarkupWriter.closeElement
  split
  · exact h
  · exact h.grown (fun _ => List.mem_of_mem_tail) (Nat.le_refl _)

theorem size_appendTo (w : MarkupWriter) (parent : Option NodeId) (content : Content) :
    (w.appendTo parent content).2.document.size = w.document.size + 1 := by
  cases parent <;> simp [appendTo, MarkupWriter.setDocument]

theorem appendTo (h : w.InBounds) (parent : Option NodeId) (content : Content) :
    (w.appendTo parent content).2.InBounds :=
  h.grown (List.Subset.refl _) (by rw [size_appendTo]; exact Nat.le_succ _)

theorem setAttribute (h : w.InBounds) (name value : String) :
    (w.setAttribute name value).InBounds := by
  unfold MarkupWriter.setAttribute
  split
  · exact h.setDocument (Nat.le_of_eq (Document.size_updateElement ..).symm)
  · exact h

theorem step (h : w.InBounds) (call : TargetCall) : (w.step call).2.InBounds := by
  cases call with
  | beginPatch root mode rule => exact h.closeAll
  | endPatch => exact h.closeAll
  | openElement name key =>
    intro id hid
    have hsize : (w.openElement name).2.document.size = w.document.size + 1 :=
      size_appendTo w _ _
    change id < (w.openElement name).2.document.size
    rw [hsize]
    rcases List.mem_cons.1 hid with rfl | hid
    · exact Nat.lt_succ_self _
    · exact Nat.lt_succ_of_lt (h id hid)
  | closeElement => exact h.closeElement
  | text value => exact h.appendTo _ _
  | setAttribute name value => exact h.setAttribute name value
  | applyStatics attributes =>
    change (attributes.foldl _ w).InBounds
    induction attributes generalizing w with
    | nil => exact h
    | cons a rest ih => exact ih (h.setAttribute a.1 a.2)
  | setInnerMarkup node markup =>
    exact h.setDocument (Nat.le_of_eq (Document.size_updateElement ..).symm)
  | setComment node value =>
    refine h.setDocument ?_
    unfold Document.setComment
    split
    · exact Nat.le_of_eq (Document.size_setContent ..).symm
    · exact Nat.le_refl _
  | appendComment parent value =>
    simp only [MarkupWriter.step, appendComment]
    split
    · exact h.appendTo (some parent) (.comment value)
    · exact h
  | setProperty name value => exact h
  | skip => exact h
  | skipNode => exact h
  | applyAttributes => exact h

end InBounds

theorem children_openElement {w : MarkupWriter} (h : w.InBounds) (name : String) :
    (w.openElement name).2.document.children w.document.size = [] := by
  have hadd : ∀ parent, (w.document.add parent (.element (.new name ""))).2.children
      w.document.size = [] := fun parent => by
    simp [Document.children, Document.element?, Document.content?, Document.node?_add, Element.new]
  change (w.appendTo w.current? (.element (.new name ""))).2.document.children w.document.size = []
  cases hcurrent : w.current? with
  | none => exact hadd none
  | some current =>
    have hne : w.document.size ≠ current := Nat.ne_of_gt (h current (List.mem_of_mem_head? hcurrent))
    exact (Document.children_eq_of_node? (Document.node?_updateElement_ne _ hne)).trans (hadd _)

def ground (mayBreak requeues : Prop) : Ground MarkupWriter where
  covered := false
  mayBreak := mayBreak
  requeues := requeues
  holds := InBounds
  opened node w := w.document.children node = []
  calls _ _ call _ h := h.step call
  opens _ w name _ h node hnode := by
    obtain rfl := Option.some.inj hnode
    exact children_openElement h name
  assigns _ w node name value _ h := by
    change (w.setAttribute name value).document.children node = []
    have hchildren : ∀ e : Element, (e.setAttribute name value).children = e.children := fun _ => rfl
    unfold setAttribute
    split
    · next current _ => exact (Document.children_updateElement _ current _ hchildren).trans h
    · exact h
  empty _ w node _ h := by
    change Except.ok (!(w.document.children node).isEmpty) = Except.ok false
    rw [h]
    rfl
  inspects _ _ _ _ := trivial
  records _ w node change h := h.setDocument (Nat.le_of_eq (Document.size_updateElement ..).symm)
  attaches _ w id c node h := h.setDocument (Nat.le_of_eq (Document.size_attachedDocument ..).symm)
  pointer _ _ _ _ := rfl

end MarkupWriter

end KeyedRender

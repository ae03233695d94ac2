import KeyedRender.Proofs.Document.Editing
import KeyedRender.Proofs.Render.Stable
import KeyedRender.Target.KeyedDom

/-!
# Edits by calls

The calls of a keyed target, and the edits between passes, do nothing to its document but edit it
and rewrite comments, whatever state the target is in.
-/
namespace KeyedRender

def Edited {α : Type} (R : Document → Document → Prop) (d : Document) (result : α → Document)
    (r : Except Fault α) : Prop :=
  Allows (fun _ => True) (fun a => R d (result a)) r

namespace KeyedDom

variable {R : Document → Document → Prop}

theorem allows_liveNode (t : KeyedDom) (id : NodeId) : Allows (fun _ => True)
    (fun n => t.document.content? id = some n.content) (t.liveNode id) := by
  rw [liveNode, Document.content?]
  cases t.document.node? id <;> trivial

section

variable (h : Document.Restructuring R)
include h

theorem edited_insertChild (t : KeyedDom) (p : NodeId) (position : Nat) {content : Content}
    (hc : ∀ e, content = .element e → e = .new e.name e.key) :
    Edited R t.document (fun r => r.2.document) (t.insertChild p position content) := by
  have hadd : R t.document (t.document.add (some p) content).2 := h.add _ _ hc
  refine (Allows.any _).bind fun children _ => ?_
  split
  · trivial
  · exact h.trans hadd (h.setChildren _ _ _)

theorem edited_dropUnvisited (t : KeyedDom) (f : Frame) :
    Edited R t.document document (t.dropUnvisited f) := by
  refine (Allows.any _).bind fun children _ => ?_
  split
  · trivial
  · exact h.prune _ _ _ _

theorem edited_place (t : KeyedDom) (f : Frame) (name key : String) :
    Edited R t.document (fun r => r.2.document) (t.place f name key) := by
  refine (Allows.any _).bind fun offset? _ => ?_
  cases offset? with
  | none => exact edited_insertChild h t.countCreated f.parent f.index (by rintro _ ⟨⟩; rfl)
  | some offset =>
    dsimp only
    split
    · trivial
    · exact h.setChildren _ _ _

theorem edited_openElement (t : KeyedDom) (name key : String) :
    Edited R t.document (fun r => r.2.document) (t.openElement name key) := by
  unfold openElement
  split
  · exact h.refl _
  · exact (edited_place h t _ name key).bind fun r hr => hr

theorem edited_closeElement (t : KeyedDom) :
    Edited R t.document (fun r => r.2.document) t.closeElement := by
  unfold closeElement
  split
  · exact (edited_dropUnvisited h t _).bind fun r hr => hr
  · exact h.refl _

theorem edited_writeText (t : KeyedDom) (value : String) :
    Edited R t.document (fun r => r.2.document) (t.writeText value) := by
  unfold writeText
  split
  · exact h.refl _
  · next f below _ =>
    have hnew : Edited R t.document (fun r => r.2.document)
        (t.insertChild f.parent f.index (.text value)) :=
      edited_insertChild h t f.parent f.index (by simp)
    dsimp only
    split
    · exact hnew.bind fun r hr => hr
    · refine (allows_liveNode t _).bind fun n hn => ?_
      split
      · next hc => exact h.setText value (hn.trans (congrArg some hc))
      · exact hnew.bind fun r hr => hr

theorem edited_appendComment (t : KeyedDom) (p : NodeId) (value : String) :
    Edited R t.document (fun r => r.2.document) (t.appendComment p value) := by
  unfold appendComment
  split
  · exact h.refl _
  · next e _ =>
    exact (edited_insertChild h t.countCreated p e.children.length (by simp)).bind fun r hr => hr

theorem edited_beginPatch (t : KeyedDom) (root : NodeId) (mode : PatchMode)
    (rule : Key.MatchRule) : Edited R t.document document (t.beginPatch root mode rule) :=
  (Allows.any _).bind fun _ _ => h.refl _

theorem edited_endPatch (t : KeyedDom) : Edited R t.document document t.endPatch := by
  unfold endPatch
  dsimp only
  split
  · exact (edited_dropUnvisited h t _).bind fun r hr => hr
  · exact h.refl _

theorem edited_apply_of_restructures (call : TargetCall) (hc : call.Restructures) (t : KeyedDom)
    (hcomment : ∀ id value, call = .setComment id value →
      R t.document (t.document.setComment id value)) :
    Edited R t.document (fun r => r.2.document) (apply call t) := by
  have stayed : ∀ target, R t.document (t.skipTo target).document := fun target => by
    rw [document_skipTo]
    exact h.refl _
  cases call with
  | beginPatch root mode rule => exact (edited_beginPatch h t root mode rule).map fun _ hr => hr
  | endPatch => exact (edited_endPatch h t).map fun _ hr => hr
  | openElement name key => exact edited_openElement h t name key
  | closeElement => exact edited_closeElement h t
  | text value => exact edited_writeText h t value
  | skip => exact stayed _
  | skipNode => exact stayed _
  | applyAttributes => exact h.refl _
  | setComment id value =>
    show R t.document (t.setComment id value).document
    rw [document_setComment]
    exact hcomment id value rfl
  | appendComment p value => exact edited_appendComment h t p value
  | _ => exact hc.elim

theorem edited_append (t : KeyedDom) (parent : NodeId) {content : Content}
    (hc : ∀ e, content = .element e → e = .new e.name e.key) :
    Edited R t.document (fun r => r.2.document) (t.append parent content) :=
  edited_insertChild h t parent _ hc

theorem edited_remove (t : KeyedDom) (id : NodeId) :
    Edited R t.document document (t.remove id) := by
  unfold remove
  split
  · exact h.dropAll _ _
  · next parent _ =>
    exact (Allows.any _).bind fun _ _ => h.prune _ _ _ _

end

section

variable (h : Document.Reshaping R)
include h

theorem edited_changeCurrent (t : KeyedDom) {change : Element → Element}
    (hc : ∀ e, (change e).record = e.record) (hraw : ∀ e, (change e).raw = e.raw) :
    Edited R t.document document (t.changeCurrent change) := by
  unfold changeCurrent
  split
  · exact h.refl _
  · next f below _ =>
    exact (Allows.any _).bind fun _ _ => h.updateElement _ _ hc hraw

theorem edited_setAttributes (t : KeyedDom) (attributes : List (String × String)) :
    Edited R t.document document (t.setAttributes attributes) := by
  induction attributes generalizing t with
  | nil => exact h.refl _
  | cons a rest ih =>
    have hfirst : Edited R t.document document (t.changeCurrent (.setAttribute a.1 a.2)) :=
      edited_changeCurrent h t (fun _ => rfl) fun _ => rfl
    exact hfirst.bind fun t₁ h₁ => (ih t₁).mono fun t₂ h₂ => h.trans h₁ h₂

theorem edited_apply_of_not_fills (call : TargetCall) (hfills : ¬ call.Fills) (t : KeyedDom)
    (hcomment : ∀ id value, call = .setComment id value →
      R t.document (t.document.setComment id value)) :
    Edited R t.document (fun r => r.2.document) (apply call t) := by
  by_cases hc : call.Restructures
  · exact edited_apply_of_restructures h.toRestructuring call hc t hcomment
  · cases call with
    | setAttribute name value => exact (edited_setAttributes h t _).map fun _ hr => hr
    | setProperty name value =>
      exact Allows.map (edited_changeCurrent h t (fun _ => rfl) fun _ => rfl) fun _ hr => hr
    | applyStatics attributes => exact (edited_setAttributes h t attributes).map fun _ hr => hr
    | setInnerMarkup id markup => exact absurd trivial hfills
    | _ => exact absurd trivial hc

end

theorem edited_setInnerMarkup (h : Document.Editing R) (t : KeyedDom) (id : NodeId)
    (markup : String) :
    Edited R t.document document (t.setInnerMarkup id markup) := by
  refine (Allows.any _).bind fun children _ => ?_
  exact h.trans (h.reshaping.prune _ _ _ _) (h.updateElement _ _ fun _ => rfl)

theorem edited_apply (h : Document.Editing R) (call : TargetCall) (t : KeyedDom)
    (hcomment : ∀ id value, call = .setComment id value →
      R t.document (t.document.setComment id value)) :
    Edited R t.document (fun r => r.2.document) (apply call t) := by
  by_cases hfills : call.Fills
  · cases call with
    | setInnerMarkup id markup => exact (edited_setInnerMarkup h t id markup).map fun _ hr => hr
    | _ => exact hfills.elim
  · exact edited_apply_of_not_fills h.reshaping call hfills t hcomment

end KeyedDom

end KeyedRender

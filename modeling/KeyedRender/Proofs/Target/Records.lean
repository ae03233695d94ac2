import KeyedRender.Proofs.Document.Records
import KeyedRender.Proofs.Target.Editing
import KeyedRender.Target.MarkupWriter

/-!
# Records and calls

No call of a target changes what is recorded of a node, whatever state the target is in.
-/
namespace KeyedRender

variable {α β : Type}

def KeepsRecords (part : NodeRecord → β) (d : Document) (result : α → Document)
    (r : Except Fault α) : Prop :=
  Allows (fun _ => True) (fun a => d.Keeps part (result a)) r

namespace KeyedDom

open Document (Keeps)

variable {part : NodeRecord → β}

theorem keepsRecords_changeCurrent (t : KeyedDom) {change : Element → Element}
    (h : ∀ e, part (change e).record = part e.record) :
    KeepsRecords part t.document document (t.changeCurrent change) := by
  unfold changeCurrent
  split
  · exact Keeps.refl _
  · next f below _ =>
    exact (Allows.any _).bind fun _ _ => Keeps.updateElement _ _ h

theorem keeps_setComment (t : KeyedDom) (id : NodeId) (value : String) :
    t.document.Keeps part (t.setComment id value).document := by
  rw [document_setComment]
  exact .setComment _ _ _

theorem keepsRecords_apply (call : TargetCall) (t : KeyedDom) :
    KeepsRecords part t.document (fun r => r.2.document) (apply call t) :=
  edited_apply Keeps.editing call t fun _ _ _ => .setComment _ _ _

end KeyedDom

namespace MarkupWriter

open Document (Keeps)

variable {part : NodeRecord → β}

theorem keeps_appendTo (w : MarkupWriter) (p : Option NodeId) {content : Content}
    (h : ∀ e, content = .element e → e.record = .empty) :
    w.document.Keeps part (w.appendTo p content).2.document := by
  cases p with
  | none => exact Keeps.add _ _ h
  | some p => exact (Keeps.add _ _ h).trans (.updateElement _ _ fun _ => rfl)

theorem keeps_setAttribute (w : MarkupWriter) (name value : String) :
    w.document.Keeps part (w.setAttribute name value).document := by
  unfold setAttribute
  split
  · exact .updateElement _ _ fun _ => rfl
  · exact .refl _

theorem keeps_setAttributes (w : MarkupWriter) (attributes : List (String × String)) :
    w.document.Keeps part
      (attributes.foldl (fun w (name, value) => w.setAttribute name value) w).document := by
  induction attributes generalizing w with
  | nil => exact .refl _
  | cons a rest ih => exact (keeps_setAttribute w a.1 a.2).trans (ih _)

theorem keeps_appendComment (w : MarkupWriter) (p : NodeId) (value : String) :
    w.document.Keeps part (w.appendComment p value).2.document := by
  unfold appendComment
  split
  · exact keeps_appendTo w p (by simp)
  · exact .refl _

theorem keeps_step (call : TargetCall) (w : MarkupWriter) :
    w.document.Keeps part (w.step call).2.document := by
  cases call with
  | openElement name key => exact keeps_appendTo w _ (by rintro _ ⟨⟩; rfl)
  | closeElement =>
    change w.document.Keeps part w.closeElement.2.document
    unfold closeElement
    split <;> exact .refl _
  | text value => exact keeps_appendTo w _ (by simp)
  | setAttribute name value => exact keeps_setAttribute w name value
  | applyStatics attributes => exact keeps_setAttributes w attributes
  | setInnerMarkup id markup => exact .updateElement _ _ fun _ => rfl
  | setComment id value => exact .setComment _ _ _
  | appendComment p value => exact keeps_appendComment w p value
  | _ => exact .refl _

end MarkupWriter

end KeyedRender

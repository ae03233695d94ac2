import KeyedRender.Proofs.Document.Attaching
import KeyedRender.Proofs.Document.Bare
import KeyedRender.Proofs.Target.Editing

/-!
# Calls without records

A call goes by the shape of a document and not by what is recorded in it. So the calls of a run can
be made again, without what the renderer has recorded in between, and are answered as before.
-/
namespace KeyedRender

def TargetCall.visited : TargetCall → Option NodeId → List NodeId
  | .openElement _ _, answer => answer.toList
  | .text _, answer => answer.toList
  | _, _ => []

namespace KeyedDom

open Document

def bare (t : KeyedDom) : KeyedDom := t.setDocument t.document.bare

def bareAnswer {α : Type} (r : α × KeyedDom) : α × KeyedDom := (r.1, r.2.bare)

variable (t : KeyedDom)

@[simp] theorem document_bare : t.bare.document = t.document.bare := rfl

@[simp] theorem frames_bare : t.bare.frames = t.frames := rfl

@[simp] theorem mode_bare : t.bare.mode = t.mode := rfl

theorem bare_updateRecord (id : NodeId) (change : NodeRecord → NodeRecord) :
    (t.setDocument (t.document.updateRecord id change)).bare = t.bare :=
  congrArg t.setDocument (t.document.bare_updateRecord id change)

theorem bare_attached (id : ComponentId) (c : Component) (root : NodeId) :
    (t.setDocument (attachedDocument t.document id c root)).bare = t.bare :=
  Document.of_attachedDocument (P := fun d => (t.setDocument d).bare = t.bare) rfl
    fun d node _ hd => ((t.setDocument d).bare_updateRecord node _).trans hd

theorem liveNode_bare (id : NodeId) : t.bare.liveNode id = (t.liveNode id).map Node.bare := by
  simp only [liveNode, document_bare, node?_bare]
  cases t.document.node? id <;> rfl

theorem listedChildren_bare (id : NodeId) : t.bare.listedChildren id = t.listedChildren id := by
  simp only [listedChildren, document_bare, content?_bare]
  cases t.document.content? id with
  | none => rfl
  | some content => cases content <;> rfl

theorem findMatch?_bare (name key : String) (l : List NodeId) :
    t.bare.findMatch? name key l = t.findMatch? name key l := by
  induction l with
  | nil => rfl
  | cons id rest ih =>
    simp only [findMatch?, document_bare, content?_bare, ih]
    cases t.document.content? id with
    | none => rfl
    | some content => cases content <;> rfl

theorem insertChild_bare (parent : NodeId) (position : Nat) (content : Content) :
    t.bare.insertChild parent position content.bare =
      (t.insertChild parent position content).map bareAnswer := by
  have hlisted : ∀ d : Document, (t.bare.setDocument d.bare).listedChildren parent =
      (t.setDocument d).listedChildren parent :=
    fun d => (t.setDocument d).listedChildren_bare parent
  have hid : (t.bare.document.add (some parent) content.bare).1 =
      (t.document.add (some parent) content).1 := t.document.size_bare
  simp only [insertChild, document_bare, ← bare_add, hlisted]
  cases (t.setDocument (t.document.add (some parent) content).2).listedChildren parent with
  | error f => rfl
  | ok children =>
    simp only [bind, Except.bind]
    split
    · rfl
    · rw [← bare_setChildren, ← document_bare, hid]
      rfl

theorem dropUnvisited_bare (f : Frame) :
    t.bare.dropUnvisited f = (t.dropUnvisited f).map bare := by
  simp only [dropUnvisited, listedChildren_bare]
  cases t.listedChildren f.parent with
  | error f => rfl
  | ok children =>
    simp only [bind, Except.bind, document_bare]
    split
    · rfl
    · rw [← bare_setChildren, ← bare_dropAll]
      rfl

theorem place_bare (f : Frame) (name key : String) :
    t.bare.place f name key = (t.place f name key).map bareAnswer := by
  simp only [place, findMatch?_bare, document_bare, children_bare]
  cases t.findMatch? name key ((t.document.children f.parent).drop f.index) with
  | error f => rfl
  | ok offset? =>
    cases offset? with
    | none => exact t.countCreated.insertChild_bare f.parent f.index (.element (.new name key))
    | some offset =>
      simp only [bind, Except.bind]
      split
      · rfl
      · rw [← bare_setChildren]
        rfl

theorem openElement_bare (name key : String) :
    t.bare.openElement name key = (t.openElement name key).map bareAnswer := by
  simp only [openElement, frames_bare]
  split
  · rfl
  · next f _ _ =>
    rw [place_bare]
    cases t.place f name key <;> rfl

theorem closeElement_bare : t.bare.closeElement = t.closeElement.map bareAnswer := by
  simp only [closeElement, frames_bare]
  split
  · next f _ _ _ =>
    rw [dropUnvisited_bare]
    cases t.dropUnvisited f <;> rfl
  · rfl

theorem writeText_bare (value : String) :
    t.bare.writeText value = (t.writeText value).map bareAnswer := by
  simp only [writeText, frames_bare, document_bare, children_bare, liveNode_bare]
  split
  · rfl
  · next f _ _ =>
    have hnew := t.insertChild_bare f.parent f.index (.text value)
    simp only [Content.bare] at hnew
    rw [hnew]
    split
    · cases t.insertChild f.parent f.index (.text value) <;> rfl
    · next id _ =>
      cases t.liveNode id with
      | error f => rfl
      | ok n =>
        obtain ⟨parent, _ | _ | _⟩ := n
        · cases t.insertChild f.parent f.index (.text value) <;> rfl
        · simp only [Except.map, bind, Except.bind, Node.bare, Content.bare]
          have htext := t.document.bare_setContent id (.text value)
          simp only [Content.bare] at htext
          rw [← htext]
          rfl
        · cases t.insertChild f.parent f.index (.text value) <;> rfl

theorem changeCurrent_bare {change change' : Element → Element}
    (h : ∀ e, (change e).bare = change' e.bare) :
    t.bare.changeCurrent change' = (t.changeCurrent change).map bare := by
  simp only [changeCurrent, frames_bare, liveNode_bare, document_bare]
  split
  · rfl
  · next f _ _ =>
    rw [← t.document.bare_updateElement h]
    cases t.liveNode f.parent <;> rfl

theorem setAttributes_bare (attributes : List (String × String)) :
    t.bare.setAttributes attributes = (t.setAttributes attributes).map bare := by
  induction attributes generalizing t with
  | nil => rfl
  | cons a rest ih =>
    have hsame : ∀ e : Element, (e.setAttribute a.1 a.2).bare = e.bare.setAttribute a.1 a.2 :=
      fun _ => rfl
    have hfirst := t.changeCurrent_bare hsame
    simp only [setAttributes, List.foldlM_cons] at ih ⊢
    rw [hfirst]
    cases t.changeCurrent (.setAttribute a.1 a.2) with
    | error f => rfl
    | ok t₁ => exact ih t₁

theorem skipTo_bare (target : Nat → Nat → Nat) : t.bare.skipTo target = (t.skipTo target).bare := by
  simp only [skipTo, frames_bare, document_bare, children_bare]
  split <;> rfl

theorem setInnerMarkup_bare (id : NodeId) (markup : String) :
    t.bare.setInnerMarkup id markup = (t.setInnerMarkup id markup).map bare := by
  simp only [setInnerMarkup, listedChildren_bare, document_bare]
  cases t.listedChildren id with
  | error f => rfl
  | ok children =>
    have hraw : ∀ e : Element, Element.bare { e with raw := some markup } =
        { e.bare with raw := some markup } := fun _ => rfl
    simp only [bind, Except.bind]
    rw [← bare_setChildren, ← bare_dropAll, ← bare_updateElement _ hraw]
    rfl

theorem setComment_bare (id : NodeId) (value : String) :
    t.bare.setComment id value = (t.setComment id value).bare := by
  simp only [setComment, document_bare, isComment_bare]
  split
  · rw [← bare_setComment]
    rfl
  · rfl

theorem appendComment_bare (parent : NodeId) (value : String) :
    t.bare.appendComment parent value = (t.appendComment parent value).map bareAnswer := by
  simp only [appendComment, document_bare, element?_bare]
  cases t.document.element? parent with
  | none => rfl
  | some e =>
    have hnew := t.countCreated.insertChild_bare parent e.children.length (.comment value)
    have hcreated : t.bare.countCreated.insertChild parent e.bare.children.length (.comment value) =
      (t.countCreated.insertChild parent e.children.length (.comment value)).map bareAnswer := hnew
    simp only [Option.map_some, hcreated]
    cases t.countCreated.insertChild parent e.children.length (.comment value) <;> rfl

theorem endPatch_bare : t.bare.endPatch = t.endPatch.map bare := by
  simp only [endPatch, frames_bare, mode_bare]
  split
  · next f _ _ =>
    rw [dropUnvisited_bare]
    cases t.dropUnvisited f <;> rfl
  · rfl

theorem beginPatch_bare (root : NodeId) (mode : PatchMode) (rule : Key.MatchRule) :
    t.bare.beginPatch root mode rule = (t.beginPatch root mode rule).map bare := by
  have hframe : t.bare.firstFrame root mode = t.firstFrame root mode := by
    cases mode with
    | inner => rfl
    | outer =>
      simp only [firstFrame, liveNode_bare, document_bare, children_bare]
      cases t.liveNode root <;> rfl
  simp only [beginPatch, hframe]
  cases t.firstFrame root mode <;> rfl

theorem apply_bare (call : TargetCall) :
    apply call t.bare = (apply call t).map bareAnswer := by
  cases call with
  | beginPatch root mode rule =>
    simp only [apply, beginPatch_bare]
    cases t.beginPatch root mode rule <;> rfl
  | endPatch =>
    simp only [apply, endPatch_bare]
    cases t.endPatch <;> rfl
  | openElement name key => exact t.openElement_bare name key
  | closeElement => exact t.closeElement_bare
  | text value => exact t.writeText_bare value
  | setAttribute name value =>
    simp only [apply, setAttributes_bare]
    cases t.setAttributes [(name, value)] <;> rfl
  | setProperty name value =>
    have hsame : ∀ e : Element, (e.setProperty name value.toText).bare =
        e.bare.setProperty name value.toText := fun _ => rfl
    simp only [apply]
    rw [t.changeCurrent_bare hsame]
    cases t.changeCurrent (.setProperty name value.toText) <;> rfl
  | skip => exact congrArg (fun t' => Except.ok (none, t')) (t.skipTo_bare _)
  | skipNode => exact congrArg (fun t' => Except.ok (none, t')) (t.skipTo_bare _)
  | applyAttributes => rfl
  | applyStatics attributes =>
    simp only [apply, setAttributes_bare]
    cases t.setAttributes attributes <;> rfl
  | setInnerMarkup id markup =>
    simp only [apply, setInnerMarkup_bare]
    cases t.setInnerMarkup id markup <;> rfl
  | setComment id value =>
    exact congrArg (fun t' => Except.ok (none, t')) (t.setComment_bare id value)
  | appendComment p value => exact t.appendComment_bare p value

/-- Makes some calls, one after the other, and gives the nodes that they visit. -/
def replay : List TargetCall → KeyedDom → Except Fault (List NodeId × KeyedDom)
  | [], t => .ok ([], t)
  | call :: rest, t => do
    let (answer, t) ← apply call t
    let (visits, t) ← replay rest t
    return (call.visited answer ++ visits, t)

theorem replay_bare (calls : List TargetCall) :
    replay calls t.bare = (replay calls t).map bareAnswer := by
  induction calls generalizing t with
  | nil => rfl
  | cons call rest ih =>
    simp only [replay, apply_bare]
    cases apply call t with
    | error f => rfl
    | ok r =>
      simp only [Except.map, bind, Except.bind, bareAnswer, ih]
      cases replay rest r.2 <;> rfl

theorem replay_call {call : TargetCall} {answer : Option NodeId} {t t' : KeyedDom}
    (h : apply call t = .ok (answer, t')) :
    replay [call] t.bare = .ok (call.visited answer, t'.bare) := by
  have hbare := t.apply_bare call
  rw [h] at hbare
  simp only [replay, hbare, Except.map, bind, Except.bind, pure, Except.pure, bareAnswer,
    List.append_nil]

theorem replay_append {calls calls' : List TargetCall} {t t' t'' : KeyedDom}
    {visits visits' : List NodeId} (h : replay calls t = .ok (visits, t'))
    (h' : replay calls' t' = .ok (visits', t'')) :
    replay (calls ++ calls') t = .ok (visits ++ visits', t'') := by
  induction calls generalizing t visits with
  | nil =>
    cases h
    exact h'
  | cons call rest ih =>
    simp only [replay, bind, Except.bind, List.cons_append] at h ⊢
    cases hcall : apply call t with
    | error f =>
      rw [hcall] at h
      cases h
    | ok r =>
      rw [hcall] at h
      dsimp only at h ⊢
      cases hrest : replay rest r.2 with
      | error f =>
        rw [hrest] at h
        cases h
      | ok r' =>
        rw [hrest] at h
        cases h
        rw [ih hrest]
        simp only [pure, Except.pure, List.append_assoc]

end KeyedDom

end KeyedRender

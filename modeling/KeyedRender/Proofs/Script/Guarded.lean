import KeyedRender.Proofs.Document.Attaching
import KeyedRender.Proofs.Script.Callers
import KeyedRender.Proofs.Script.Served

/-!
# What is true of the target's document

What is true of the document of the target stays true during a run, unless the run makes one of the
steps that are ruled out. It is enough that the calls of a rendering keep it, and that it does not
depend on records, but for the markup in them.
-/
namespace KeyedRender

open RenderM

def Guarded (bad : Moment KeyedDom → Bool) (P : Document → Prop) (ms : List (Moment KeyedDom))
    (s t : RenderState KeyedDom) : Prop :=
  (∀ m ∈ ms, bad m = false) → P s.renderer.pass.target.document →
    P t.renderer.pass.target.document

theorem RenderM.writeBlob_target {ctx : Context} {s t : RenderState KeyedDom} {node : NodeId}
    {markup : String} (hs : s.renderer.layers = []) (h : (writeBlob node markup ctx s).EndsIn t) :
    s.renderer.pass.target.writeBlob node markup = .ok t.renderer.pass.target ∧
      t.renderer.layers = [] := by
  rcases writeBlob_of_endsIn hs h with ⟨hold, rfl⟩ | ⟨hold, answer, u, hcall, rfl⟩
  · exact ⟨if_pos hold, hs⟩
  · obtain ⟨happly, hlayers⟩ := callTarget_done hcall
    refine ⟨(if_neg hold).trans ?_, hlayers.trans hs⟩
    obtain ⟨t', hset, hanswer⟩ := exists_ok_of_map happly
    rw [hset]
    cases hanswer
    rfl

/-- What the calls of a rendering keep, but for the steps that are ruled out. -/
structure Guard (bad : Moment KeyedDom → Bool) (P : Document → Prop) : Prop where
  call : ∀ {call answer} {t t' : KeyedDom}, call.IsSingle →
    KeyedDom.apply call t = .ok (answer, t') → P t.document → P t'.document
  assigned : ∀ {name value ctx s t}, s.renderer.layers = [] →
    (RenderM.setAttribute name value ctx s).EndsIn t → Guarded bad P [] s t
  statics : ∀ {attributes ctx s t}, ((Instruction.applyStatics attributes).perform ctx s).EndsIn t →
    Guarded bad P [⟨.instruction (.applyStatics attributes), ctx, s⟩] s t
  filled : ∀ {node markup ctx s t},
    ((Instruction.setInnerMarkup node markup).perform ctx s).EndsIn t →
    Guarded bad P [⟨.instruction (.setInnerMarkup node markup), ctx, s⟩] s t
  blob : ∀ {node markup} {t t' : KeyedDom}, t.writeBlob node markup = .ok t' →
    P t.document → P t'.document
  record : ∀ (d : Document) node {change : NodeRecord → NodeRecord},
    (∀ r, (change r).blob = r.blob) → P d → P (d.updateRecord node change)

namespace Guarded

variable {bad : Moment KeyedDom → Bool} {P : Document → Prop} {ms : List (Moment KeyedDom)}
  {s t : RenderState KeyedDom}

theorem isCourse : Course (Guarded bad P) where
  refl _ _ h := h
  append h h' hfree hs := h' (fun m hm => hfree m (List.mem_append_right _ hm))
    (h (fun m hm => hfree m (List.mem_append_left _ hm)) hs)

theorem of_target (h : t.renderer.pass.target = s.renderer.pass.target) : Guarded bad P ms s t :=
  fun _ hs => h ▸ hs

theorem isTargetCourse : TargetCourse (Guarded bad P) := ⟨isCourse, of_target⟩

theorem marked (s : RenderState KeyedDom) :
    Guarded bad P [] s { s with renderer := s.renderer.markRendered } :=
  of_target (congrArg Pass.target s.renderer.pass_markRendered)

end Guarded

namespace Guard

variable {bad : Moment KeyedDom → Bool} {P : Document → Prop} (h : Guard bad P)
include h

theorem called {ctx : Context} {s t : RenderState KeyedDom} {call : TargetCall}
    {answer : Option NodeId} (hc : call.IsSingle) (hcall : callTarget call ctx s = .done answer t) :
    Guarded bad P [] s t :=
  fun _ => h.call hc (callTarget_done hcall).1

theorem callTarget {w : Bool} (call : TargetCall) (hc : call.IsSingle) :
    Traces w (Guarded bad P) (RenderM.callTarget call) .none := by
  intro ctx s t _ ht
  obtain ⟨answer, hdone⟩ := callTarget_of_endsIn ht
  exact h.called hc hdone

theorem attached {d : Document} (hd : P d) (id : ComponentId) (c : Component) (root : NodeId) :
    P (attachedDocument d id c root) :=
  Document.of_attachedDocument hd fun d node _ => h.record d node fun _ => rfl

theorem path (w : Bool) : Path (fun _ _ => True) w (Guarded bad P) where
  toCourse := Guarded.isCourse
  still _ _ := .of_target rfl
  keyed _ _ s := .of_target (s.renderer.target_changeKeys _)
  aside _ := .of_target rfl
  logger s logger := .of_target (s.renderer.target_setLogger logger)
  marked := Guarded.marked
  popped _ hs := hs
  call _ _ hc hcall := h.called hc.isSingle hcall
  assigned _ _ _ hl ht := h.assigned hl ht
  statics _ _ ht := h.statics ht
  filled _ _ _ ht := h.filled ht
  blob _ _ _ hl hopen ht _ :=
    h.blob (writeBlob_target ((layers_of_callTarget hopen).trans hl) ht).1
  server {ctx s t} name key parameters hw _ ht := by
    have hrecord : ∀ node text, Traces w (Guarded bad P)
        (changeRecord node fun r => { r with skipParameters := some text }) .none :=
      fun node text ctx s t _ ht => by
        obtain rfl := Outcome.EndsIn.done_iff.1 ht
        have hkept : P s.renderer.pass.target.document → P (Document.updateRecord _ node fun r =>
          { r with skipParameters := some text }) := h.record _ node fun _ => rfl
        exact fun _ => hkept
    have hopened : Guarded bad P [] s t := Traces.openServerElement Guarded.isCourse
      (fun call hc => h.callTarget call hc.isSingle)
      (Guarded.isTargetCourse.changeRenderer fun r => by rw [Renderer.pass_markRendered]) hrecord
      name key parameters ctx s t hw ht
    exact fun _ => hopened (by simp)
  skippedServer _ _ _ _ := .of_target rfl
  toDefault _ ht := by
    rcases toDefault_of_endsIn ht with rfl | rfl
    · exact .of_target rfl
    · exact .of_target (Renderer.target_handBackLogger _)
  requeue index _ ht := by
    rcases requeue_of_endsIn ht with ⟨-, rfl⟩ | ⟨id, -, rfl⟩
    · exact .of_target rfl
    · exact .of_target (Renderer.target_enqueue _ id)
  probed _ _ := .of_target rfl
  component {spec ctx s id u ms v} _ _ hbegin hinside := by
    have hbegun : Guarded bad P [⟨.component spec, ctx, s⟩] s u :=
      .of_target (by rw [beginComponent_renderer hbegin, Renderer.target_enqueue])
    have hcomponent := Guarded.isCourse.append hbegun hinside
    refine ⟨hcomponent, fun {root t} ht => ?_⟩
    have hattached : Guarded bad P [] v t := by
      rcases attach_of_endsIn (.inl ⟨_, ht⟩) with rfl | ⟨-, c, -, rfl⟩
      · exact .of_target rfl
      · exact fun _ hv => h.attached hv id c root
    simpa using Guarded.isCourse.append hcomponent hattached

theorem guides (w : Bool) : Guides (fun _ => True) w (Guarded bad P) :=
  .of_path Side.trivial (h.path w) fun _ _ => .of_target rfl

end Guard

end KeyedRender

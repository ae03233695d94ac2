import KeyedRender.Proofs.Script.Served
import KeyedRender.Proofs.Session.Attachment

/-!
# Arrivals in a run

The steps of a run that open an element by a server's key are its arrivals, and no other step
comes near what is recorded. So the run is a passage from document to document with one chronicle.
-/
namespace KeyedRender

def Moment.arrival? (m : Moment KeyedDom) : Option Arrival :=
  match m.question, m.state.renderer.layers with
  | .block (.openServerElement name key parameters), [] =>
    match RenderM.openServed name key m.context m.state,
        (RenderM.openServerElement name key parameters m.context m.state).ended? with
    | .done (some node) opened, some (result, ended) =>
      match opened.renderer.pass.target.hasContent node with
      | .ok hasContent => some ⟨node, hasContent,
        (parameters.filter Payload.isSupplied).map Payload.indentedText,
        opened.renderer.pass.target.document.skipParameters? node, result,
        ended.renderer.pass.target.document.skipParameters? node⟩
      | .error _ => none
    | _, _ => none
  | _, _ => none

structure Document.Passage (d : Document) (ms : List (Moment KeyedDom)) (d' : Document) : Prop where
  whole : d.Chronicle (ms.filterMap Moment.arrival?) d'
  upto : ∀ {before m after}, ms = before ++ m :: after →
    d.Chronicle (before.filterMap Moment.arrival?) m.state.renderer.pass.target.document

namespace Document.Passage

variable {d d' d'' : Document} {ms ms' : List (Moment KeyedDom)}

theorem of_keeps (h : d.Keeps NodeRecord.skipParameters d') : d.Passage [] d' where
  whole := .of_keeps h
  upto hms := by simp at hms

theorem refl (d : Document) : d.Passage [] d := of_keeps (.refl d)

theorem single {m : Moment KeyedDom}
    (h : m.state.renderer.pass.target.document.Chronicle ([m].filterMap Moment.arrival?) d') :
    m.state.renderer.pass.target.document.Passage [m] d' where
  whole := h
  upto {before m' after} hms := by
    obtain ⟨rfl, rfl⟩ : before = [] ∧ m' = m := by
      cases before with
      | nil =>
        cases hms
        exact ⟨rfl, rfl⟩
      | cons first rest => simp at hms
    exact .refl _

theorem trans (h : d.Passage ms d') (h' : d'.Passage ms' d'') : d.Passage (ms ++ ms') d'' where
  whole := by
    rw [List.filterMap_append]
    exact h.whole.trans h'.whole
  upto {before m after} heq := by
    have later : ∀ {middle}, ms' = middle ++ m :: after → d.Chronicle
        ((ms ++ middle).filterMap Moment.arrival?) m.state.renderer.pass.target.document :=
      fun hms' => by
        rw [List.filterMap_append]
        exact h.whole.trans (h'.upto hms')
    rcases List.append_eq_append_iff.1 heq with ⟨middle, rfl, hms'⟩ | ⟨middle, hms, hafter⟩
    · exact later hms'
    · cases middle with
      | nil =>
        rw [List.append_nil] at hms
        simpa [hms] using later (show ms' = [] ++ m :: after from hafter.symm)
      | cons first rest =>
        rw [List.cons_append] at hafter
        cases hafter
        exact h.upto hms

end Document.Passage

namespace Arrivals

open RenderM Document

def Between (ms : List (Moment KeyedDom)) (s t : RenderState KeyedDom) : Prop :=
  s.renderer.pass.target.document.Passage ms t.renderer.pass.target.document

variable {ms : List (Moment KeyedDom)} {s t : RenderState KeyedDom} {ctx : Context} {α : Type}

theorem isCourse : Course Between := ⟨fun _ => .refl _, Passage.trans⟩

theorem arrival?_of_isPlain {m : Moment KeyedDom} (h : m.question.IsPlain) : m.arrival? = none := by
  unfold Moment.arrival?
  split
  · next hquestion _ =>
    rw [hquestion] at h
    exact h.elim
  · rfl

theorem arrival?_of_layers {m : Moment KeyedDom} (h : m.state.renderer.layers ≠ []) :
    m.arrival? = none := by
  unfold Moment.arrival?
  split
  · next hlayers => exact absurd hlayers h
  · rfl

theorem of_document (h : t.renderer.pass.target.document = s.renderer.pass.target.document) :
    Between [] s t := by
  rw [Between, h]
  exact .refl _

theorem of_moment {m : Moment KeyedDom} (hm : m.arrival? = none)
    (h : t.renderer.pass.target.document = m.state.renderer.pass.target.document) :
    Between [m] m.state t := by
  refine .single ?_
  rw [h, List.filterMap_cons_none hm]
  exact .refl _

theorem server (name key : String) (parameters : Option Payload) (hs : s.renderer.layers = [])
    (ht : (openServerElement name key parameters ctx s).EndsIn t) :
    Between [⟨.block (.openServerElement name key parameters), ctx, s⟩] s t := by
  refine Passage.single (m := ⟨.block (.openServerElement name key parameters), ctx, s⟩) ?_
  have hrun := openServerElement_run ctx hs name key parameters
  rw [hrun] at ht
  rcases Outcome.EndsIn.bind_iff.1 ht with ⟨e, hfailed⟩ | ⟨opened, u, hopened, ht⟩
  · obtain ⟨opened, hdone, -⟩ := openServed_ends hs (.inr ⟨e, hfailed⟩)
    rw [hdone] at hfailed
    cases hfailed
  obtain ⟨_, hdone, hkeeps, hserved⟩ := openServed_ends hs (.inl ⟨opened, hopened⟩)
  rw [hopened] at hdone
  cases hdone
  cases opened with
  | none =>
    obtain rfl := Outcome.EndsIn.done_iff.1 ht
    rw [List.filterMap_cons_none (by simp only [Moment.arrival?, hs, hopened])]
    exact .of_keeps hkeeps
  | some node =>
    obtain ⟨hasContent, result, hcontent, hended, hchronicle⟩ := serve_ends (hserved node rfl) ht
    have harrival : Moment.arrival? ⟨.block (.openServerElement name key parameters), ctx, s⟩ =
        some ⟨node, hasContent, (parameters.filter Payload.isSupplied).map Payload.indentedText,
          u.renderer.pass.target.document.skipParameters? node, result,
          t.renderer.pass.target.document.skipParameters? node⟩ := by
      simp only [Moment.arrival?, hs, hopened, hrun, bind_run, hended, hcontent]
    rw [List.filterMap_cons_some harrival]
    exact (Document.Chronicle.of_keeps hkeeps).trans hchronicle

theorem attach {id : ComponentId} {root : NodeId} (ht : RenderM.attach id root ctx s = .done () t) :
    s.renderer.pass.target.document.Keeps NodeRecord.skipParameters
      t.renderer.pass.target.document := by
  rcases attach_of_endsIn (.inl ⟨_, ht⟩) with rfl | ⟨-, c, -, rfl⟩
  · exact .refl _
  have hdetach : ∀ d previous, Document.Keeps NodeRecord.skipParameters d
      (detach d id previous root) := by
    intro d previous
    unfold detach
    split
    · exact .refl _
    · split
      · exact .updateRecord _ _ fun _ => rfl
      · exact .refl _
  change Document.Keeps _ _ (attachedDocument _ id c root)
  unfold attachedDocument
  dsimp only
  split
  · exact hdetach _ _
  · exact (hdetach _ _).trans (.updateRecord _ _ fun _ => rfl)

theorem trail (watched : Bool) : Trail (fun _ _ => True) watched Between where
  toCourse := isCourse
  plain m hm := of_moment (arrival?_of_isPlain hm) rfl
  aside _ := of_document rfl
  keys s change := of_document (congrArg KeyedDom.document (s.renderer.target_changeKeys change))
  logger s logger := of_document (congrArg KeyedDom.document (s.renderer.target_setLogger logger))
  marked s := of_document
    (congrArg (fun pass => pass.target.document) s.renderer.pass_markRendered)
  popped _ h := h
  call _ _ h := .of_keeps (callTarget_keeps h)
  blob {s} node markup _ := .of_keeps <|
    show s.renderer.pass.target.document.Keeps NodeRecord.skipParameters
        (s.renderer.pass.target.document.updateRecord node fun r => { r with blob := some markup })
      from .updateRecord _ _ fun _ => rfl
  server name key parameters _ hs ht := server name key parameters hs ht
  skippedServer _ _ _ hs := of_moment (arrival?_of_layers hs) rfl
  toDefault {ctx s t} _ ht := by
    rcases toDefault_of_endsIn ht with rfl | rfl
    · exact of_moment rfl rfl
    · exact of_moment (m := ⟨.instruction .toDefault, ctx, s⟩) rfl
        (congrArg KeyedDom.document (Renderer.target_handBackLogger _))
  requeue {ctx s t} index _ ht := by
    rcases requeue_of_endsIn ht with ⟨-, rfl⟩ | ⟨id, -, rfl⟩
    · exact of_moment rfl rfl
    · exact of_moment (m := ⟨.instruction (.requeue index), ctx, s⟩) rfl
        (congrArg KeyedDom.document (Renderer.target_enqueue _ id))
  probed _ _ := of_moment rfl rfl
  component {spec ctx s id u ms v} _ _ hbegin h := by
    have hbegun : Between [⟨.component spec, ctx, s⟩] s u :=
      of_moment rfl (by rw [beginComponent_renderer hbegin, Renderer.target_enqueue])
    have hcomponent := isCourse.append hbegun h
    refine ⟨hcomponent, fun {root t} ht => ?_⟩
    have hattached : Between [] v t := .of_keeps (attach ht)
    simpa using isCourse.append hcomponent hattached

end Arrivals

end KeyedRender

import KeyedRender.Proofs.Script.Blobs
import KeyedRender.Proofs.Target.Retaining

/-!
# Visits of a run

What a watched target is called with is logged, and the calls of a part of a run can be made again
on a target with nothing recorded: they visit the same nodes there. None of these was visited
before, and each stays in its place from then on. All of them stay there too, unless a step writes
raw markup straight into an element that they are below.
-/
namespace KeyedRender

open RenderM

def Event.targetCall? : Event → Option TargetCall
  | .target call => some call
  | _ => none

def Shared.targetCalls (sh : Shared) : List TargetCall := sh.log.toList.filterMap Event.targetCall?

theorem Event.IsReport.targetCall? {event : Event} (h : event.IsReport) :
    event.targetCall? = none := by
  cases event <;> first | rfl | exact h.elim

theorem Shared.targetCalls_push (sh : Shared) (event : Event) :
    ({ sh with log := sh.log.push event } : Shared).targetCalls =
      sh.targetCalls ++ event.targetCall?.toList := by
  simp only [targetCalls, Array.toList_push, List.filterMap_append, List.filterMap_cons,
    List.filterMap_nil]
  cases event.targetCall? <;> rfl

theorem side_targetCalls : Side fun sh sh' : Shared => sh'.targetCalls = sh.targetCalls where
  refl _ := rfl
  trans h h' := h'.trans h
  log event he sh := by
    rw [Shared.targetCalls_push, he.targetCall?, Option.toList_none, List.append_nil]
  savedKeys _ _ := rfl
  learn _ _ _ := rfl
  synchronize sh id :=
    (Shared.targetCalls_push (sh.changeRegistry (·.update id Component.synchronize))
      (.synchronized id)).trans (List.append_nil _)
  created h := ⟨h, fun _ => h⟩

namespace KeyedDom

/-- Some calls, and the nodes that they visit on the way from one target to another. -/
structure Made (calls : List TargetCall) (visits : List NodeId) (safe : NodeId → Prop)
    (t t' : KeyedDom) : Prop where
  replayed : replay calls t.bare = .ok (visits, t'.bare)
  proceeds : ∀ before, t.HasVisited before → t.Proceeds safe before visits t'

variable {calls calls' : List TargetCall} {visits visits' : List NodeId}
  {safe safe' safe'' : NodeId → Prop} {t t' t'' : KeyedDom}

theorem made_nil (hbare : t'.bare = t.bare)
    (h : ∀ before, t.HasVisited before → t.Proceeds safe before [] t') : Made [] [] safe t t' where
  replayed := by rw [hbare, replay]
  proceeds := h

theorem Made.append (h : Made calls visits safe t t') (h' : Made calls' visits' safe' t' t'')
    (hsafe : ∀ c, safe'' c → safe c ∧ safe' c) :
    Made (calls ++ calls') (visits ++ visits') safe'' t t'' where
  replayed := replay_append h.replayed h'.replayed
  proceeds before hb := by
    have hfirst := (h.proceeds before hb).mono fun c _ hc => (hsafe c hc).1
    have hsecond := (h'.proceeds (before ++ visits) hfirst.visited).mono
      fun c _ hc => (hsafe c hc).2
    exact hfirst.trans hsecond

theorem made_call {call : TargetCall} {answer : Option NodeId} (hi : call.IsInner)
    (hsafe : ∀ before, t.HasVisited before → ∀ c ∈ before, safe c → t.Spares call c)
    (h : apply call t = .ok (answer, t')) : Made [call] (call.visited answer) safe t t' where
  replayed := replay_call h
  proceeds before hb := by
    have happly := hb.apply hi
    rw [h] at happly
    refine Proceeds.mono happly fun c hc hs => ?_
    rcases List.mem_append.1 hc with hc | hc
    · exact hsafe before hb c hc hs
    · -- Calls that write raw markup visit nothing.
      rintro id markup rfl
      cases hc

end KeyedDom

theorem RenderM.targetCalls_callTarget {call : TargetCall} {answer : Option NodeId} {ctx : Context}
    {s t : RenderState KeyedDom} (hw : ctx.watched = true)
    (h : callTarget call ctx s = .done answer t) :
    t.shared.targetCalls = s.shared.targetCalls ++ [call] := by
  unfold callTarget at h
  split at h
  · cases h
  · cases h
    simp only [hw, if_true]
    exact s.shared.targetCalls_push (.target call)

/-- A step that writes raw markup straight into an element that a node is below. -/
def Moment.Buries (m : Moment KeyedDom) (c : NodeId) : Prop :=
  ∃ node markup, m.question = .instruction (.setInnerMarkup node markup) ∧
    m.state.renderer.layers = [] ∧
    ∃ child ∈ m.state.renderer.pass.target.document.children node,
      m.state.renderer.pass.target.document.Below child c

theorem Moment.Buries.filled {m : Moment KeyedDom} {c : NodeId} (h : m.Buries c) :
    ∃ node, m.filled? = some node := by
  obtain ⟨node, markup, hquestion, hlayers, -⟩ := h
  refine ⟨node, ?_⟩
  rw [Moment.filled?, hquestion]
  exact if_pos (List.isEmpty_iff.2 hlayers)

def Visiting (ms : List (Moment KeyedDom)) (s t : RenderState KeyedDom) : Prop :=
  ∃ calls visits, t.shared.targetCalls = s.shared.targetCalls ++ calls ∧
    KeyedDom.Made calls visits (fun c => ∀ m ∈ ms, ¬ m.Buries c) s.renderer.pass.target
      t.renderer.pass.target

namespace Visiting

variable {ms : List (Moment KeyedDom)} {s t u : RenderState KeyedDom} {ctx : Context}

theorem idle (hlog : t.shared.targetCalls = s.shared.targetCalls)
    (hbare : t.renderer.pass.target.bare = s.renderer.pass.target.bare)
    (h : ∀ safe before, s.renderer.pass.target.HasVisited before →
      s.renderer.pass.target.Proceeds safe before [] t.renderer.pass.target) : Visiting ms s t :=
  ⟨[], [], by rw [hlog, List.append_nil], KeyedDom.made_nil hbare (h _)⟩

theorem quiet (htarget : t.renderer.pass.target = s.renderer.pass.target)
    (hlog : t.shared.targetCalls = s.shared.targetCalls) : Visiting ms s t := by
  refine idle hlog (by rw [htarget]) fun _ before hb => ?_
  rw [htarget]
  exact hb.idle

theorem isCourse : Course Visiting where
  refl _ := quiet rfl rfl
  append {ms ms' s t u} h h' := by
    obtain ⟨calls, visits, hlog, hmade⟩ := h
    obtain ⟨calls', visits', hlog', hmade'⟩ := h'
    refine ⟨calls ++ calls', visits ++ visits', by rw [hlog', hlog, List.append_assoc],
      hmade.append hmade' fun c hfree => ⟨fun m hm => ?_, fun m hm => ?_⟩⟩
    · exact hfree m (List.mem_append_left _ hm)
    · exact hfree m (List.mem_append_right _ hm)

theorem updateRecord (s : RenderState KeyedDom) (node : NodeId)
    (change : NodeRecord → NodeRecord) : Visiting ms s
      { s with renderer := s.renderer.setTarget (s.renderer.pass.target.setDocument
        (s.renderer.pass.target.document.updateRecord node change)) } :=
  idle rfl (KeyedDom.bare_updateRecord _ node change) fun _ _ hb => hb.updateRecord node change

theorem call {call : TargetCall} {answer : Option NodeId} (hw : ctx.watched = true)
    (hi : call.IsInner) (hsafe : ∀ before, s.renderer.pass.target.HasVisited before →
      ∀ c ∈ before, (∀ m ∈ ms, ¬ m.Buries c) → s.renderer.pass.target.Spares call c)
    (h : RenderM.callTarget call ctx s = .done answer t) : Visiting ms s t := by
  have happly : KeyedDom.apply call s.renderer.pass.target = .ok (answer, t.renderer.pass.target) :=
    (callTarget_done h).1
  exact ⟨[call], _, targetCalls_callTarget hw h, KeyedDom.made_call hi hsafe happly⟩

theorem callTarget (call : TargetCall) (hc : call.IsStep) :
    Traces true Visiting (RenderM.callTarget call) .none := by
  intro ctx s t hw ht
  obtain ⟨answer, hdone⟩ := callTarget_of_endsIn ht
  refine Visiting.call hw hc.isInner (fun _ _ c _ _ id markup hfills => ?_) hdone
  subst hfills
  exact absurd trivial hc.isSingle.not_fills

theorem changeRenderer {change : Renderer KeyedDom → Renderer KeyedDom}
    (h : ∀ r, (change r).pass.target = r.pass.target) :
    Traces true Visiting (RenderM.changeRenderer change) .none := by
  intro ctx s t _ ht
  obtain rfl := Outcome.EndsIn.done_iff.1 ht
  exact quiet (h _) rfl

theorem marked (s : RenderState KeyedDom) :
    Visiting [] s { s with renderer := s.renderer.markRendered } :=
  quiet (congrArg Pass.target s.renderer.pass_markRendered) rfl

theorem assigned {call : TargetCall} {answer : Option NodeId} (hw : ctx.watched = true)
    (_ : s.renderer.layers = []) (hi : call.IsInner) (hc : ¬ call.Fills)
    (h : RenderM.callTarget call ctx s = .done answer t) : Visiting [] s t := by
  refine Visiting.call hw hi (fun _ _ c _ _ id markup hfills => ?_) h
  subst hfills
  exact absurd trivial hc

theorem attach (id : ComponentId) (root : NodeId) :
    Traces true Visiting (RenderM.attach id root) .none := by
  intro ctx s t _ ht
  rcases attach_of_endsIn ht with rfl | ⟨-, component, -, rfl⟩
  · exact isCourse.refl t
  · exact idle rfl (KeyedDom.bare_attached _ id component root)
      fun _ _ hb => hb.attached id component root

theorem writeBlob {node : NodeId} {key markup : String} (hw : ctx.watched = true)
    (hs : s.renderer.layers = [])
    (hopen : RenderM.callTarget (.openElement "html-blob" key) ctx s = .done (some node) t)
    (hu : (RenderM.writeBlob node markup ctx t).EndsIn u) : Visiting [] t u := by
  have ht : t.renderer.layers = [] := (layers_of_callTarget hopen).trans hs
  have happly : s.renderer.pass.target.openElement "html-blob" key =
      .ok (some node, t.renderer.pass.target) := (callTarget_done hopen).1
  obtain ⟨-, g, below, hframes⟩ := KeyedDom.openElement_some happly
  obtain ⟨-, rfl⟩ | ⟨-, answer, v, hcall, rfl⟩ := writeBlob_of_endsIn ht hu
  · exact isCourse.refl u
  · have hinner : TargetCall.IsInner (.setInnerMarkup node markup) := trivial
    have hwritten : Visiting [] t v := by
      refine Visiting.call hw hinner (fun _ hb c hc _ id _ hwrite child hchild => ?_) hcall
      cases hwrite
      exact (hb.clear c hc).apart child ⟨⟨node, 0⟩, hframes ▸ List.mem_cons_self, hchild⟩
    have hrecorded : Visiting [] v _ := updateRecord v node fun r => { r with blob := some markup }
    exact isCourse.append hwritten hrecorded

theorem filled {node : NodeId} {markup : String} (hw : ctx.watched = true)
    (ht : ((Instruction.setInnerMarkup node markup).perform ctx s).EndsIn t) :
    Visiting [⟨.instruction (.setInnerMarkup node markup), ctx, s⟩] s t := by
  by_cases hs : s.renderer.layers = []
  · rw [Instruction.perform, onTarget_of_layers_eq_nil _ hs] at ht
    obtain ⟨answer, hdone⟩ := callTarget_of_endsIn (Outcome.EndsIn.returning_iff.1 ht)
    have hinner : TargetCall.IsInner (.setInnerMarkup node markup) := trivial
    refine Visiting.call hw hinner (fun _ _ c _ hspared id _ hwrite child hchild hbelow => ?_) hdone
    cases hwrite
    exact hspared _ (List.mem_singleton_self _) ⟨node, markup, rfl, hs, child, hchild, hbelow⟩
  · rw [Instruction.perform, onTarget_of_layers hs] at ht
    obtain rfl := Outcome.EndsIn.done_iff.1 ht
    exact quiet rfl rfl

theorem path : Path (fun sh sh' : Shared => sh'.targetCalls = sh.targetCalls) true Visiting where
  toCourse := isCourse
  still _ _ := quiet rfl rfl
  keyed _ _ s := quiet (s.renderer.target_changeKeys _) rfl
  aside h := quiet rfl h
  logger s logger := quiet (s.renderer.target_setLogger logger) rfl
  marked := marked
  popped _ h := h
  call hw _ hc hcall := callTarget _ hc _ _ _ hw (.inl ⟨_, hcall⟩)
  assigned name value hw _ ht :=
    Traces.setAttribute isCourse marked assigned name value _ _ _ hw ht
  statics {ctx s t} attributes hw ht := by
    have hset : Visiting [] s t :=
      Traces.applyStatics isCourse marked assigned attributes ctx s t hw ht
    have hstep : Visiting [⟨.instruction (.applyStatics attributes), ctx, s⟩] s s := quiet rfl rfl
    exact isCourse.append hstep hset
  filled _ _ hw ht := filled hw ht
  blob _ _ hw hs hopen ht := writeBlob hw hs hopen ht
  server {ctx s t} name key parameters hw _ ht := by
    have hopened : Visiting [] s t :=
      Traces.openServerElement isCourse callTarget (changeRenderer fun r => by
        rw [Renderer.pass_markRendered]) (fun node _ ctx s t _ ht => by
        obtain rfl := Outcome.EndsIn.done_iff.1 ht
        exact updateRecord s node _) name key parameters ctx s t hw ht
    have hstep : Visiting [⟨.block (.openServerElement name key parameters), ctx, s⟩] s s :=
      quiet rfl rfl
    exact isCourse.append hstep hopened
  skippedServer _ _ _ _ := quiet rfl rfl
  toDefault _ ht := by
    rcases toDefault_of_endsIn ht with rfl | rfl
    · exact quiet rfl rfl
    · exact quiet (Renderer.target_handBackLogger _) rfl
  requeue index _ ht := by
    rcases requeue_of_endsIn ht with ⟨-, rfl⟩ | ⟨id, -, rfl⟩
    · exact quiet rfl rfl
    · exact quiet (Renderer.target_enqueue _ id) rfl
  probed _ _ := quiet rfl rfl
  component {spec ctx s id u ms v} hw _ hbegin h := by
    have hbegun : Visiting [⟨.component spec, ctx, s⟩] s u := by
      obtain ⟨hrenderer, hshared⟩ := beginComponent_cases hbegin
      refine quiet (by rw [hrenderer, Renderer.target_enqueue]) ?_
      rcases hshared with hshared | ⟨type, key, label, hshared⟩ <;> rw [hshared] <;> rfl
    have hcomponent := isCourse.append hbegun h
    refine ⟨hcomponent, fun {root t} ht => ?_⟩
    have hattached : Visiting [] v t := attach id root ctx v t hw (.inl ⟨_, ht⟩)
    simpa using isCourse.append hcomponent hattached

theorem script (script : Script) : Traces true Visiting (script.run KeyedDom) script.moments :=
  script.traces side_targetCalls path

theorem setLogger (logger : Option LoggerId) :
    Traces true Visiting (RenderM.setLogger logger) .none :=
  changeRenderer (Renderer.target_setLogger · logger)

theorem logQueueLength : Traces true Visiting RenderM.logQueueLength .none :=
  .renderer isCourse fun _ => path.log side_targetCalls.reporting _ trivial

theorem flushQueue : Traces true Visiting RenderM.flushQueue .none := by
  refine .flushQueue isCourse (changeRenderer fun _ => rfl) fun id ctx s t _ ht => ?_
  obtain rfl := Outcome.EndsIn.done_iff.1 ht
  exact quiet rfl (side_targetCalls.synchronize s.shared id)

end Visiting

end KeyedRender

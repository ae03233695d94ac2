import KeyedRender.Proofs.Script.Distinct
import KeyedRender.Proofs.Script.Muted

/-!
# What a run queues

A component joins the queue of the pass when it is begun, and when it is queued again while it is
alive. Muted layers pass it down, a probe drops it, and one that waits already is not queued twice:
a run puts the distinct components of its moments behind what waited before, in order of first
queueing.
-/
namespace KeyedRender

open RenderM

def Moment.queued? {τ : Type} [RenderTarget τ] (m : Moment τ) : Option ComponentId :=
  if m.state.renderer.layers.all Layer.isMuted then
    match m.question with
    | .component spec =>
      match beginComponent spec m.context m.state with
      | .done id _ => some id
      | _ => none
    | .instruction (.requeue index) =>
      (m.state.shared.registry.known[index]?).filter
        (m.state.renderer.held ++ m.context.rendering ++ m.context.pinned).contains
    | _ => none
  else none

def queueOnce (queue : List ComponentId) (id : ComponentId) : List ComponentId :=
  if queue.contains id then queue else queue ++ [id]

theorem foldl_queueOnce (ids : List ComponentId) : ids.foldl queueOnce [] = ids.eraseDups := by
  induction ids using List.reverseRecOn with
  | nil => rfl
  | append_singleton rest id ih =>
    simp only [List.foldl_append, ih, List.foldl_cons, List.foldl_nil, queueOnce,
      List.contains_iff_mem, List.mem_eraseDups]
    by_cases h : id ∈ rest
    · rw [if_pos h, eraseDups_concat_of_mem h]
    · rw [if_neg h, eraseDups_concat_of_notMem h]

namespace Renderer

variable {τ : Type} (r : Renderer τ)

theorem queue_changeKeys (change : Key.Stack → Key.Stack) :
    (r.changeKeys change).pass.queue = r.pass.queue := by
  rw [changeKeys]
  split <;> rfl

theorem queue_setLogger (logger : Option LoggerId) :
    (r.setLogger logger).pass.queue = r.pass.queue := by
  rw [setLogger]
  split <;> rfl

theorem isMuted_handBackLogger :
    r.handBackLogger.layers.map Layer.isMuted = r.layers.map Layer.isMuted := by
  rw [handBackLogger]
  split
  · next keys logger below hr =>
    have hbelow := ({ r with layers := below } : Renderer τ).isMuted_setLogger logger
    simp [push, hr, hbelow, Layer.isMuted]
  · rfl

theorem queue_handBackLogger : r.handBackLogger.pass.queue = r.pass.queue := by
  rw [handBackLogger]
  split
  · exact queue_setLogger _ _
  · rfl

theorem queue_enqueue (id : ComponentId) : (r.enqueue id).pass.queue =
    if r.layers.all Layer.isMuted then queueOnce r.pass.queue id else r.pass.queue := by
  rw [enqueue, queueOnce]
  cases r.layers.all Layer.isMuted <;> cases r.pass.queue.contains id <;> rfl

end Renderer

structure Queues {τ : Type} [RenderTarget τ] (ms : List (Moment τ)) (s t : RenderState τ) :
    Prop where
  layers : t.renderer.layers.map Layer.isMuted = s.renderer.layers.map Layer.isMuted
  queue : t.renderer.pass.queue = (ms.filterMap Moment.queued?).foldl queueOnce s.renderer.pass.queue

namespace Queues

variable {τ : Type} [RenderTarget τ] {ms ms' : List (Moment τ)} {s t u : RenderState τ}
  {ctx : Context}

theorem isCourse : Course (Queues (τ := τ)) where
  refl _ := ⟨rfl, rfl⟩
  append h h' := ⟨h'.layers.trans h.layers,
    by rw [h'.queue, h.queue, List.filterMap_append, List.foldl_append]⟩

theorem none {m : Moment τ} (hm : m.queued? = none)
    (hlayers : t.renderer.layers.map Layer.isMuted = m.state.renderer.layers.map Layer.isMuted)
    (hqueue : t.renderer.pass.queue = m.state.renderer.pass.queue) : Queues [m] m.state t :=
  ⟨hlayers, by rw [List.filterMap_cons_none hm, hqueue]; rfl⟩

theorem enqueue {m : Moment τ} {id : ComponentId}
    (hm : m.queued? = if m.state.renderer.layers.all Layer.isMuted then some id else Option.none)
    (ht : t.renderer = m.state.renderer.enqueue id) : Queues [m] m.state t := by
  refine ⟨by rw [ht, Renderer.layers_enqueue], ?_⟩
  rw [ht, Renderer.queue_enqueue]
  split
  · next hmuted => rw [List.filterMap_cons_some (hm.trans (if_pos hmuted))]; rfl
  · next hmuted => rw [List.filterMap_cons_none (hm.trans (if_neg hmuted))]; rfl

theorem queued?_of_isPlain {m : Moment τ} (h : m.question.IsPlain) : m.queued? = Option.none := by
  unfold Moment.queued?
  split
  · split <;> simp_all [Question.IsPlain]
  · rfl

theorem changeRenderer {w : Bool} {change : Renderer τ → Renderer τ}
    (hlayers : ∀ r, (change r).layers.map Layer.isMuted = r.layers.map Layer.isMuted)
    (hqueue : ∀ r, (change r).pass.queue = r.pass.queue) :
    Traces w Queues (RenderM.changeRenderer change) .none := by
  intro ctx s t _ ht
  obtain rfl := Outcome.EndsIn.done_iff.1 ht
  exact ⟨hlayers s.renderer, hqueue s.renderer⟩

theorem callTarget {w : Bool} (call : TargetCall) :
    Traces (τ := τ) w Queues (RenderM.callTarget call) .none := by
  intro ctx s t _ ht
  obtain ⟨node, hdone⟩ := callTarget_of_endsIn ht
  unfold RenderM.callTarget at hdone
  split at hdone
  · cases hdone
  · cases hdone
    exact ⟨rfl, rfl⟩

theorem requeue (index : Nat) (ht : ((Instruction.requeue index).perform ctx s).EndsIn t) :
    Queues [⟨.instruction (.requeue index), ctx, s⟩] s t := by
  rcases requeue_of_endsIn ht with ⟨hfound, rfl⟩ | ⟨id, hfound, rfl⟩
  · refine .none (m := ⟨_, ctx, t⟩) ?_ rfl rfl
    simp only [Moment.queued?, hfound, ite_self]
  · exact .enqueue (m := ⟨_, ctx, s⟩) (by simp only [Moment.queued?, hfound]) rfl

theorem trail (w : Bool) : Trail (τ := τ) (fun _ _ => True) w Queues where
  toCourse := isCourse
  plain m hm := .none (queued?_of_isPlain hm) rfl rfl
  aside _ := ⟨rfl, rfl⟩
  keys s change := ⟨s.renderer.isMuted_changeKeys change, s.renderer.queue_changeKeys change⟩
  logger s logger := ⟨s.renderer.isMuted_setLogger logger, s.renderer.queue_setLogger logger⟩
  marked s := ⟨s.renderer.isMuted_markRendered, by rw [Renderer.pass_markRendered]; rfl⟩
  popped {ms s t} layer h := by
    refine ⟨?_, h.queue⟩
    have hlayers := h.layers
    simp only [RenderState.push, Renderer.push, List.map_cons] at hlayers
    simp only [Renderer.pop, List.map_tail, hlayers, List.tail_cons]
  call hw _ h := callTarget _ _ _ _ hw (.inl ⟨_, h⟩)
  blob _ _ _ := ⟨rfl, rfl⟩
  server {ctx s t} name key parameters hw _ ht := by
    have hopened : Queues [] s t :=
      Traces.openServerElement isCourse (fun call _ => callTarget call)
        (changeRenderer Renderer.isMuted_markRendered fun r => by rw [Renderer.pass_markRendered])
        (fun _ _ => changeRenderer (fun _ => rfl) fun _ => rfl) name key parameters ctx s t hw ht
    exact .none (m := ⟨_, ctx, s⟩) (by simp [Moment.queued?]) hopened.layers hopened.queue
  skippedServer {ctx s} _ _ _ _ :=
    .none (m := ⟨_, ctx, s⟩) (by simp [Moment.queued?]) rfl rfl
  toDefault {ctx s t} _ ht := by
    rcases toDefault_of_endsIn ht with rfl | rfl
    · exact .none (m := ⟨_, ctx, t⟩) (by simp [Moment.queued?]) rfl rfl
    · exact .none (m := ⟨_, ctx, s⟩) (by simp [Moment.queued?])
        s.renderer.isMuted_handBackLogger s.renderer.queue_handBackLogger
  requeue index _ ht := .requeue index ht
  probed {ctx s} spec hkind := by
    refine .none (m := ⟨_, ctx, s⟩) (if_neg fun hmuted => ?_) rfl rfl
    obtain ⟨⟨pass, _ | ⟨_ | _, below⟩⟩, shared⟩ := s <;> simp_all [Renderer.kind, Layer.isMuted]
  component {spec ctx s id u ms v} _ _ hbegin h := by
    have hbegun : Queues [⟨.component spec, ctx, s⟩] s u :=
      .enqueue (m := ⟨_, ctx, s⟩) (by simp only [Moment.queued?, hbegin])
        (beginComponent_renderer hbegin)
    have hcomponent := isCourse.append hbegun h
    refine ⟨hcomponent, fun {root t} ht => ?_⟩
    have hattached : Queues [] v t := by
      rcases attach_of_endsIn (.inl ⟨_, ht⟩) with rfl | ⟨-, c, -, rfl⟩ <;> exact ⟨rfl, rfl⟩
    simpa using isCourse.append hcomponent hattached

end Queues

end KeyedRender

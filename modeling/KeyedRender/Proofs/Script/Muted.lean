import KeyedRender.Proofs.Script.Traces

/-!
# Muted spans

Under a muted layer a script reaches neither the target nor a component that is attached to it.
Two things get through to the pass below, the components to synchronize and a logger that is
handed back, and both are known from the moments of the script.
-/
namespace KeyedRender

/-- What a step under muted layers passes down. -/
inductive Leak
  | queued (id : ComponentId)
  | logger (logger : Option LoggerId)
deriving DecidableEq

def Leak.apply {τ : Type} (p : Pass τ) : Leak → Pass τ
  | queued id => if p.queue.contains id then p else { p with queue := p.queue ++ [id] }
  | logger new => { p with logger := new }

/-- Nothing is found under a layer: a component that is rendered there is a new one. -/
def Moment.leak? {τ : Type} [RenderTarget τ] (m : Moment τ) : Option Leak :=
  match m.question, m.state.renderer.layers with
  | .component _, layers =>
    if layers.all Layer.isMuted then some (.queued m.state.shared.registry.components.size)
    else none
  | .instruction (.requeue index), layers =>
    let live := m.state.renderer.held ++ m.context.rendering ++ m.context.pinned
    if layers.all Layer.isMuted then
      ((m.state.shared.registry.known[index]?).filter live.contains).map .queued
    else none
  | .instruction .toDefault, [.muted _ logger] => some (.logger logger)
  | _, _ => none

def Event.isSynchronized (id : ComponentId) : Event → Bool
  | .synchronized other => other = id
  | _ => false

def Component.synchronizedTimes (count : Nat) (c : Component) : Component :=
  if c.type.synchronizes then { c with synchronized := c.synchronized + count } else c

/-- The components that were there stay what they are, except that they are synchronized as often
as the events say; no call of a watched target is among the events. -/
structure Shared.Overlooks (sh : Shared) (events : List Event) (sh' : Shared) : Prop where
  log : sh'.log.toList = sh.log.toList ++ events
  calls : ∀ call, .target call ∉ events
  size : sh.registry.components.size ≤ sh'.registry.components.size
  known : sh.registry.known <+: sh'.registry.known
  components : ∀ {id c}, sh.registry.component? id = some c → sh'.registry.component? id =
    some (c.synchronizedTimes (events.countP (Event.isSynchronized id)))

namespace Component

@[simp] theorem synchronizedTimes_zero (c : Component) : c.synchronizedTimes 0 = c := by
  unfold synchronizedTimes
  split <;> rfl

theorem synchronizedTimes_add (m n : Nat) (c : Component) :
    c.synchronizedTimes (m + n) = (c.synchronizedTimes m).synchronizedTimes n := by
  unfold synchronizedTimes
  by_cases h : c.type.synchronizes <;> simp [h, Nat.add_assoc]

theorem synchronize_eq (c : Component) : c.synchronize = c.synchronizedTimes 1 := rfl

end Component

namespace Shared.Overlooks

variable {sh sh' sh'' : Shared} {events events' : List Event}

theorem refl (sh : Shared) : sh.Overlooks [] sh :=
  ⟨by simp, by simp, Nat.le_refl _, List.prefix_refl _, fun h => by simpa using h⟩

theorem trans (h : sh.Overlooks events sh') (h' : sh'.Overlooks events' sh'') :
    sh.Overlooks (events ++ events') sh'' where
  log := by rw [h'.log, h.log, List.append_assoc]
  calls call hc := (List.mem_append.1 hc).elim (h.calls call) (h'.calls call)
  size := Nat.le_trans h.size h'.size
  known := h.known.trans h'.known
  components hc := by
    rw [h'.components (h.components hc), List.countP_append, Component.synchronizedTimes_add]

theorem of_registry {change : Registry → Registry}
    (hsize : sh.registry.components.size ≤ (change sh.registry).components.size)
    (hknown : sh.registry.known <+: (change sh.registry).known)
    (hc : ∀ {id c}, sh.registry.component? id = some c →
      (change sh.registry).component? id = some c) :
    sh.Overlooks [] (sh.changeRegistry change) :=
  ⟨by simp [changeRegistry], by simp, hsize, hknown, fun h => by simpa [changeRegistry] using hc h⟩

theorem log_report {event : Event} (h : event.IsReport) (sh : Shared) :
    sh.Overlooks [event] { sh with log := sh.log.push event } where
  log := by simp
  calls call hc := by
    obtain rfl := List.mem_singleton.1 hc
    exact h
  size := Nat.le_refl _
  known := List.prefix_refl _
  components {id c} hc := by
    have hnot : event.isSynchronized id = false := by
      cases event with
      | synchronized other => exact h.elim
      | _ => rfl
    simpa [hnot] using hc

theorem synchronize (sh : Shared) (id : ComponentId) : sh.Overlooks [.synchronized id]
    { sh.changeRegistry (·.update id Component.synchronize) with
      log := sh.log.push (.synchronized id) } where
  log := by simp
  calls call hc := by simp at hc
  size := Nat.le_of_eq (Registry.size_update ..).symm
  known := List.prefix_refl _
  components {other c} hc := by
    change (sh.registry.update id Component.synchronize).component? other = _
    rw [Registry.component?_update, hc]
    by_cases hid : id = other
    · simp [hid, Event.isSynchronized, Component.synchronize_eq]
    · simp [hid, Event.isSynchronized]

theorem update_new {id : ComponentId} (hid : sh.registry.components.size ≤ id)
    (h : sh.Overlooks events sh') (change : Component → Component) :
    sh.Overlooks events (sh'.changeRegistry (·.update id change)) where
  log := h.log
  calls := h.calls
  size := Nat.le_trans h.size (Nat.le_of_eq (Registry.size_update ..).symm)
  known := h.known
  components {other c} hc := by
    change (sh'.registry.update id change).component? other = _
    have hlt := Registry.lt_size_of_component? hc
    rw [Registry.component?_update, if_neg (Nat.ne_of_gt (Nat.lt_of_lt_of_le hlt hid)),
      h.components hc]

theorem create (sh : Shared) (c : Component) :
    sh.Overlooks [] (sh.changeRegistry fun g => (g.create c).2) := by
  refine of_registry (by simp [Registry.create]) (List.prefix_refl _) fun {id c'} hc => ?_
  have hlt := Registry.lt_size_of_component? hc
  rw [Registry.component?_create, if_neg (Nat.ne_of_lt hlt), hc]

theorem learn (sh : Shared) (id : ComponentId) :
    sh.Overlooks [] (sh.changeRegistry (·.learn id)) := by
  refine of_registry ?_ ?_ fun hc => (Registry.component?_learn ..).trans hc
  · unfold Registry.learn
    split <;> exact Nat.le_refl _
  · unfold Registry.learn
    split
    · exact List.prefix_refl _
    · exact List.prefix_append _ _

end Shared.Overlooks

theorem side_overlooks : Side fun sh sh' => ∃ events, sh.Overlooks events sh' where
  refl sh := ⟨[], .refl sh⟩
  trans := fun ⟨_, h⟩ ⟨_, h'⟩ => ⟨_, h.trans h'⟩
  log _ h sh := ⟨_, .log_report h sh⟩
  savedKeys sh keys := ⟨[], by simp, by simp, Nat.le_refl _, List.prefix_refl _,
    fun h => by simpa using h⟩
  learn sh id _ := ⟨[], .learn sh id⟩
  synchronize sh id := ⟨_, .synchronize sh id⟩
  created {sh c sh'} := by
    rintro ⟨events, h⟩
    have hcreate := (Shared.Overlooks.create sh c).update_new (Nat.le_refl _) Component.countRender
    have hrendered : sh.Overlooks events sh' := by
      simpa using hcreate.trans h
    exact ⟨⟨events, hrendered⟩, fun root => ⟨events, hrendered.update_new (Nat.le_refl _) _⟩⟩

/-- From a state with layers to another one: the layers are of the same kinds, and the pass below
them has what leaked. -/
structure Veiled {τ : Type} [RenderTarget τ] (ms : List (Moment τ)) (s t : RenderState τ) :
    Prop where
  layers : t.renderer.layers.map Layer.isMuted = s.renderer.layers.map Layer.isMuted
  pass : t.renderer.pass = (ms.filterMap Moment.leak?).foldl Leak.apply s.renderer.pass
  shared : ∃ events, s.shared.Overlooks events t.shared

section

variable {τ : Type}

namespace Renderer

variable (r : Renderer τ)

theorem isMuted_changeKeys (change : Key.Stack → Key.Stack) :
    (r.changeKeys change).layers.map Layer.isMuted = r.layers.map Layer.isMuted := by
  rw [changeKeys]
  split <;> simp_all [Layer.isMuted]

theorem isMuted_setLogger (logger : Option LoggerId) :
    (r.setLogger logger).layers.map Layer.isMuted = r.layers.map Layer.isMuted := by
  rw [setLogger]
  split <;> simp_all [Layer.isMuted]

theorem isMuted_markRendered :
    r.markRendered.layers.map Layer.isMuted = r.layers.map Layer.isMuted := by
  rw [markRendered]
  split <;> simp_all [Layer.isMuted]

variable {r}

theorem pass_changeKeys (h : r.layers ≠ []) (change : Key.Stack → Key.Stack) :
    (r.changeKeys change).pass = r.pass := by
  rw [changeKeys]
  split <;> simp_all

theorem pass_setLogger (h : r.layers ≠ []) (logger : Option LoggerId) :
    (r.setLogger logger).pass = r.pass := by
  rw [setLogger]
  split <;> simp_all

theorem pass_enqueue (id : ComponentId) : (r.enqueue id).pass =
    if r.layers.all Layer.isMuted then Leak.apply r.pass (.queued id) else r.pass := by
  rw [enqueue, Leak.apply]
  cases r.layers.all Layer.isMuted <;> cases r.pass.queue.contains id <;> rfl

end Renderer

variable [RenderTarget τ] {ms ms' : List (Moment τ)} {s t u : RenderState τ} {ctx : Context}

theorem Moment.leak?_of_isPlain {m : Moment τ} (h : m.question.IsPlain) : m.leak? = none := by
  unfold Moment.leak?
  split <;> simp_all [Question.IsPlain]

namespace Veiled

theorem of_pass (hms : ms.filterMap Moment.leak? = [])
    (hlayers : t.renderer.layers.map Layer.isMuted = s.renderer.layers.map Layer.isMuted)
    (hpass : t.renderer.pass = s.renderer.pass) (hshared : t.shared = s.shared) :
    Veiled ms s t :=
  ⟨hlayers, by rw [hms, hpass]; rfl, by rw [hshared]; exact ⟨[], .refl _⟩⟩

theorem layers_ne_nil (h : Veiled ms s t) (hs : s.renderer.layers ≠ []) :
    t.renderer.layers ≠ [] := by
  intro ht
  have hlayers := h.layers
  rw [ht] at hlayers
  exact hs (List.map_eq_nil_iff.1 hlayers.symm)

theorem trans (h : Veiled ms s t) (h' : Veiled ms' t u) : Veiled (ms ++ ms') s u where
  layers := h'.layers.trans h.layers
  pass := by rw [h'.pass, h.pass, List.filterMap_append, List.foldl_append]
  shared := side_overlooks.trans h.shared h'.shared

theorem toDefault (hs : s.renderer.layers ≠ [])
    (ht : (Instruction.toDefault.perform ctx s).EndsIn t) :
    Veiled [⟨.instruction .toDefault, ctx, s⟩] s t := by
  obtain ⟨⟨pass, layers⟩, shared⟩ := s
  cases layers with
  | nil => exact absurd rfl hs
  | cons layer below =>
    cases layer with
    | probe rendered =>
      obtain rfl := Outcome.EndsIn.done_iff.1 ht
      exact .of_pass rfl rfl rfl rfl
    | muted keys logger =>
      obtain rfl := Outcome.EndsIn.done_iff.1 ht
      cases below with
      | nil => exact ⟨rfl, rfl, [], .refl _⟩
      | cons next below => cases next <;> exact .of_pass rfl rfl rfl rfl

theorem requeue (index : Nat) (ht : ((Instruction.requeue index).perform ctx s).EndsIn t) :
    Veiled [⟨.instruction (.requeue index), ctx, s⟩] s t := by
  simp only [Instruction.perform, RenderM.requeue, RenderM.bind_run, RenderM.state] at ht
  cases hknown : s.shared.registry.known[index]? with
  | none =>
    rw [hknown] at ht
    obtain rfl := Outcome.EndsIn.done_iff.1 ht
    exact .of_pass (by simp [Moment.leak?, hknown]) rfl rfl rfl
  | some id =>
    rw [hknown] at ht
    simp only [RenderM.liveComponents, RenderM.bind_run, RenderM.context, RenderM.renderer,
      RenderM.pure_run] at ht
    by_cases hlive : (s.renderer.held ++ ctx.rendering ++ ctx.pinned).contains id
    · rw [if_pos hlive] at ht
      obtain rfl := Outcome.EndsIn.done_iff.1 ht
      refine ⟨by rw [Renderer.layers_enqueue], ?_, [], .refl _⟩
      rw [Renderer.pass_enqueue]
      by_cases hmuted : s.renderer.layers.all Layer.isMuted
      · simp only [List.filterMap_cons, Moment.leak?, if_pos hmuted, hknown, Option.filter, hlive]
        rfl
      · simp only [List.filterMap_cons, Moment.leak?, if_neg hmuted]
        rfl
    · rw [if_neg hlive] at ht
      obtain rfl := Outcome.EndsIn.done_iff.1 ht
      have hfilter : (some id).filter
          (s.renderer.held ++ ctx.rendering ++ ctx.pinned).contains = none := if_neg hlive
      refine .of_pass ?_ rfl rfl rfl
      simp only [List.filterMap_cons, Moment.leak?, hknown, hfilter]
      simp

theorem component {spec : ComponentSpec} {id : ComponentId} (hs : s.renderer.layers ≠ [])
    (hbegin : RenderM.beginComponent spec ctx s = .done id t)
    (h : t.renderer.layers ≠ [] → Veiled ms t u) :
    Veiled (⟨.component spec, ctx, s⟩ :: ms) s u := by
  obtain ⟨rfl, c, rfl⟩ :=
    RenderM.beginComponent_new (RenderM.findComponent?_none_of_layers hs _ _ ctx) hbegin
  simp only [Renderer.layers_enqueue] at h
  have hu := h hs
  refine ⟨?_, ?_, (side_overlooks.created hu.shared).1⟩
  · rw [hu.layers, Renderer.layers_enqueue]
  · rw [hu.pass, Renderer.pass_enqueue, List.filterMap_cons]
    by_cases hmuted : s.renderer.layers.all Layer.isMuted
    · simp only [Moment.leak?, if_pos hmuted, List.foldl_cons]
    · simp only [Moment.leak?, if_neg hmuted]

end Veiled

theorem trail_veiled (watched : Bool) :
    Trail (τ := τ) (fun sh sh' => ∃ events, sh.Overlooks events sh') watched
      fun ms s t => s.renderer.layers ≠ [] → Veiled ms s t where
  refl s _ := .of_pass rfl rfl rfl rfl
  append h h' hs := (h hs).trans (h' ((h hs).layers_ne_nil hs))
  plain m hm _ := by
    refine .of_pass ?_ rfl rfl rfl
    rw [List.filterMap_cons_none (Moment.leak?_of_isPlain hm)]
    rfl
  aside h _ := ⟨rfl, rfl, h⟩
  keys s change hs := .of_pass rfl (s.renderer.isMuted_changeKeys change)
    (Renderer.pass_changeKeys hs change) rfl
  logger s logger hs := .of_pass rfl (s.renderer.isMuted_setLogger logger)
    (Renderer.pass_setLogger hs logger) rfl
  marked s _ := .of_pass rfl s.renderer.isMuted_markRendered s.renderer.pass_markRendered rfl
  -- A layer that was put on is off again, so that those below it are of the same kinds.
  popped {ms s t} layer h hs := by
    have hv := h (by simp [RenderState.push, Renderer.push])
    refine ⟨?_, hv.pass, hv.shared⟩
    have hlayers := hv.layers
    simp only [RenderState.push, Renderer.push, List.map_cons] at hlayers
    simp only [Renderer.pop, List.map_tail, hlayers, List.tail_cons]
  call _ hs _ hne := absurd hs hne
  blob _ _ hs hne := absurd hs hne
  server _ _ _ _ hs _ hne := absurd hs hne
  skippedServer _ _ _ _ _ := .of_pass rfl rfl rfl rfl
  toDefault _ ht hs := .toDefault hs ht
  requeue index _ ht _ := .requeue index ht
  probed {ctx s} spec hkind _ := by
    have hmuted : s.renderer.layers.all Layer.isMuted = false := by
      obtain ⟨⟨pass, layers⟩, shared⟩ := s
      cases layers with
      | nil => cases hkind
      | cons layer below =>
        cases layer with
        | muted keys logger => cases hkind
        | probe rendered => rfl
    exact .of_pass (by simp [Moment.leak?, hmuted]) rfl rfl rfl
  component {spec ctx s id u ms v} _ _ hbegin h := by
    have hcomponent : s.renderer.layers ≠ [] → Veiled (⟨.component spec, ctx, s⟩ :: ms) s v :=
      fun hs => .component hs hbegin h
    refine ⟨hcomponent, fun {root t} ht hs => ?_⟩
    have hv := hcomponent hs
    rcases RenderM.attach_of_endsIn (.inl ⟨_, ht⟩) with rfl | ⟨hnil, -⟩
    · exact hv
    · exact absurd hnil (hv.layers_ne_nil hs)

omit [RenderTarget τ] in
theorem Leak.target_foldl (leaks : List Leak) (p : Pass τ) :
    (leaks.foldl Leak.apply p).target = p.target ∧ (leaks.foldl Leak.apply p).keys = p.keys := by
  induction leaks generalizing p with
  | nil => exact ⟨rfl, rfl⟩
  | cons leak rest ih =>
    obtain ⟨htarget, hkeys⟩ := ih (leak.apply p)
    rw [List.foldl_cons, htarget, hkeys]
    cases leak with
    | queued id =>
      simp only [Leak.apply]
      split <;> exact ⟨rfl, rfl⟩
    | logger logger => exact ⟨rfl, rfl⟩

/-- However a muted span ends, the target and the keys are those before it, no component that was
there was rendered or moved, and the pass has what leaked: the components that were rendered or
queued in the span, and its logger wherever it was handed back. -/
theorem muted_span (script : Script) {ctx : Context} {s t : RenderState τ}
    (hs : s.renderer.kind = .default) (ht : (RenderM.muted (script.run τ) ctx s).EndsIn t) :
    t.renderer.layers = s.renderer.layers ∧
    t.renderer.pass.target = s.renderer.pass.target ∧
    t.renderer.pass.keys = s.renderer.pass.keys ∧
    t.renderer.pass = ((script.moments ctx s.muted).filterMap Moment.leak?).foldl Leak.apply
      s.renderer.pass ∧
    ∃ events, s.shared.Overlooks events t.shared := by
  simp only [RenderM.muted, RenderM.bind_run, RenderM.renderer, hs] at ht
  obtain ⟨u, hu, rfl⟩ := RenderM.shielded_of_endsIn ht
  have hveiled := script.traces side_overlooks (trail_veiled ctx.watched).path ctx s.muted u rfl hu
    (List.cons_ne_nil _ _)
  obtain ⟨htarget, hkeys⟩ :=
    Leak.target_foldl ((script.moments ctx s.muted).filterMap Moment.leak?) s.renderer.pass
  refine ⟨?_, ?_, ?_, hveiled.pass, hveiled.shared⟩
  · have hlayers := hveiled.layers
    rw [RenderState.muted, RenderState.push, Renderer.push,
      RenderM.layers_of_kind_eq_default hs] at hlayers
    obtain ⟨layer, hlayer, -⟩ := List.map_eq_singleton_iff.1 hlayers
    simp only [Renderer.pop, hlayer, List.tail_cons, RenderM.layers_of_kind_eq_default hs]
  · exact (congrArg Pass.target hveiled.pass).trans htarget
  · exact (congrArg Pass.keys hveiled.pass).trans hkeys

def mutedCounter : Script :=
  .component ⟨.counter, .text "a", "", "div", "", .opened⟩ .done (.step (.text "x") .done)
    (.step (.setLogger (some 3)) (.step .toDefault (.step (.setLogger none) .done)))

theorem muted_span_counter : ∃ t : RenderState KeyedDom,
    (RenderM.muted (mutedCounter.run KeyedDom) (Session.context ⟨"", .null, loggedText, true⟩)
      (Session.start KeyedDom.new).initial).EndsIn t ∧
    t.renderer.pass.target = KeyedDom.new ∧ t.renderer.pass.queue = [0] ∧
    t.renderer.pass.logger = some 3 := by
  obtain ⟨t, ht⟩ : ∃ t : RenderState KeyedDom,
      (RenderM.muted (mutedCounter.run KeyedDom) (Session.context ⟨"", .null, loggedText, true⟩)
        (Session.start KeyedDom.new).initial).EndsIn t := ⟨_, .inl ⟨(), rfl⟩⟩
  obtain ⟨-, htarget, -, hpass, -⟩ := muted_span mutedCounter rfl ht
  exact ⟨t, ht, htarget, congrArg Pass.queue hpass, congrArg Pass.logger hpass⟩

end

end KeyedRender

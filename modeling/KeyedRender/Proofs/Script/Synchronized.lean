import KeyedRender.Proofs.Script.Queueing

/-!
# What a pass synchronizes

While a script runs on a pass, nothing is synchronized but by passes of its own that turn content
into text. The components that the script queued are synchronized after the end of the pass, each
of them once and in order of first queueing, and only if the script succeeded.
-/
namespace KeyedRender

open RenderM

def Registry.synchronizations (g : Registry) (id : ComponentId) : Nat :=
  ((g.component? id).map Component.synchronized).getD 0

section Registry

variable (g : Registry) (id : ComponentId)

theorem Registry.synchronizations_update (change : Component → Component)
    (h : ∀ c, (change c).synchronized = c.synchronized) (other : ComponentId) :
    (g.update id change).synchronizations other = g.synchronizations other := by
  rw [synchronizations, component?_update, synchronizations]
  split
  · cases g.component? other <;> simp [h]
  · rfl

theorem Registry.synchronizations_create (type : ComponentType) (key label : String) :
    (g.create (.new type key label)).2.synchronizations id = g.synchronizations id := by
  rw [synchronizations, component?_create, synchronizations]
  split
  · next h =>
    have hnone : g.component? id = none := by
      rw [h]
      exact Array.getElem?_eq_none (Nat.le_refl _)
    rw [hnone]
    rfl
  · rfl

theorem Registry.synchronizations_learn (other : ComponentId) :
    (g.learn id).synchronizations other = g.synchronizations other := by
  rw [synchronizations, component?_learn, synchronizations]

end Registry

structure Shared.Spares (sh sh' : Shared) : Prop where
  log : ∃ events, sh'.log.toList = sh.log.toList ++ events ∧ ∀ id, .synchronized id ∉ events
  counts : ∀ id, sh'.registry.synchronizations id = sh.registry.synchronizations id

def Script.template (kind : RenderedKind) (parameter : Option String) (script : Script) :
    Rendering :=
  enclosed kind fun σ _ => withParameter parameter (script.run σ)

def Script.templateMoments {τ : Type} [RenderTarget τ] (kind : RenderedKind)
    (parameter : Option String) (script : Script) : Moments τ :=
  let moments := script.moments.within fun ctx => { ctx with parameter := parameter.getD ctx.parameter }
  match kind with
  | .html => moments
  | .attributes => .after (openElement "div" "") fun _ => moments

/-- Nothing is synchronized, except by whole passes that turn scripts into text. -/
inductive Shared.Proceeds : Shared → Shared → Prop
  | refl (sh : Shared) : Proceeds sh sh
  | step {sh sh' sh'' : Shared} : Proceeds sh sh' → sh'.Spares sh'' → Proceeds sh sh''
  | pass {sh sh' : Shared} (kind : RenderedKind) (parameter : Option String) (script : Script)
      (logger : Option LoggerId) (ctx : Context) {u : RenderState MarkupWriter} :
      Proceeds sh sh' →
      (patch MarkupWriter.root .inner .keyed logger (script.template kind parameter MarkupWriter) ctx
        ⟨.start .new, sh'⟩).EndsIn u →
      Proceeds sh u.shared

namespace Shared

variable {sh sh' sh'' : Shared}

theorem Proceeds.trans (h : sh.Proceeds sh') (h' : sh'.Proceeds sh'') : sh.Proceeds sh'' := by
  induction h' with
  | refl => exact h
  | step _ hspares ih => exact .step ih hspares
  | pass kind parameter script logger ctx _ hu ih => exact .pass kind parameter script logger ctx ih hu

theorem Spares.proceeds (h : sh.Spares sh') : sh.Proceeds sh' := .step (.refl sh) h

theorem Spares.push {event : Event} (h : ∀ id, event ≠ .synchronized id) (sh : Shared) :
    sh.Spares { sh with log := sh.log.push event } :=
  ⟨⟨[event], by simp, fun id hmem => h id (List.mem_singleton.1 hmem).symm⟩, fun _ => rfl⟩

theorem Spares.changeRegistry {change : Registry → Registry}
    (h : ∀ id, (change sh.registry).synchronizations id = sh.registry.synchronizations id) :
    sh.Spares (sh.changeRegistry change) :=
  ⟨⟨[], by simp [Shared.changeRegistry], by simp⟩, h⟩

theorem Spares.update (sh : Shared) (id : ComponentId) (change : Component → Component)
    (h : ∀ c, (change c).synchronized = c.synchronized) :
    sh.Spares (sh.changeRegistry (·.update id change)) :=
  .changeRegistry fun other => sh.registry.synchronizations_update id change h other

theorem Spares.create (sh : Shared) (type : ComponentType) (key label : String) :
    sh.Spares (sh.changeRegistry fun g => (g.create (.new type key label)).2.update
      g.components.size Component.countRender) :=
  .changeRegistry fun other =>
    (Registry.synchronizations_update _ _ .countRender (fun _ => rfl) other).trans
      (sh.registry.synchronizations_create other type key label)

end Shared

section Runs

variable {τ : Type} [RenderTarget τ] {ctx : Context} {s t u : RenderState τ}

theorem reporting_proceeds : Reporting Shared.Proceeds where
  log event h sh := (Shared.Spares.push (fun id heq => by subst heq; exact h) sh).proceeds
  savedKeys sh keys := .step (.refl sh) ⟨⟨[], by simp, by simp⟩, fun _ => rfl⟩
  learn sh id _ := (Shared.Spares.changeRegistry fun _ => Registry.synchronizations_learn ..).proceeds

theorem coerces_proceeds (script : Script) : Coerces Shared.Proceeds fun σ _ => script.run σ := by
  intro τ _ kind parameter ctx s t h
  obtain ⟨inside, u, -, hu, rfl⟩ := renderedText_of_endsIn h
  exact .pass kind parameter script s.renderer.logger? inside (.refl s.shared) hu

theorem callTarget_proceeds {call : TargetCall} {node : Option NodeId}
    (h : callTarget call ctx s = .done node t) : s.shared.Proceeds t.shared := by
  unfold callTarget at h
  split at h
  · cases h
  · cases h
    cases ctx.watched with
    | true => exact (Shared.Spares.push (by simp) s.shared).proceeds
    | false => exact .refl _

theorem beginComponent_proceeds {spec : ComponentSpec} {id : ComponentId}
    (h : beginComponent spec ctx s = .done id t) : s.shared.Proceeds t.shared := by
  obtain ⟨-, hshared | ⟨type, key, label, hshared⟩⟩ := beginComponent_cases h
  · rw [hshared]
    exact (Shared.Spares.update s.shared id .countRender fun _ => rfl).proceeds
  · rw [hshared]
    exact (Shared.Spares.create s.shared type key label).proceeds

theorem attach_proceeds {id : ComponentId} {root : NodeId}
    (h : attach id root ctx s = .done () t) : s.shared.Proceeds t.shared := by
  rcases attach_of_endsIn (.inl ⟨_, h⟩) with rfl | ⟨-, c, -, rfl⟩
  · exact .refl _
  · unfold attachedRegistry
    split
    · exact (Shared.Spares.update s.shared id (.placeAt root) fun _ => rfl).proceeds
    · exact .refl s.shared

theorem trail_proceeds (w : Bool) :
    Trail (τ := τ) Shared.Proceeds w (Side.course Shared.Proceeds) where
  refl s := .refl s.shared
  append h h' := h.trans h'
  plain m _ := .refl m.state.shared
  aside h := h
  keys s _ := .refl s.shared
  logger s _ := .refl s.shared
  marked s := .refl s.shared
  popped _ h := h
  call _ _ h := callTarget_proceeds h
  blob {s} _ _ _ := .refl s.shared
  server {ctx s t} name key parameters hw _ ht := by
    have hcourse : Course (Side.course (τ := τ) Shared.Proceeds) :=
      ⟨fun s => .refl s.shared, fun h h' => h.trans h'⟩
    have hrenderer : ∀ change, Traces w (Side.course (τ := τ) Shared.Proceeds)
        (changeRenderer change) .none := by
      intro change ctx s t _ ht
      obtain rfl := Outcome.EndsIn.done_iff.1 ht
      exact .refl s.shared
    refine Traces.openServerElement hcourse (fun call _ => ?_) (hrenderer _) (fun _ _ => hrenderer _)
      name key parameters ctx s t hw ht
    intro ctx s t _ ht
    obtain ⟨node, hdone⟩ := callTarget_of_endsIn ht
    exact callTarget_proceeds hdone
  skippedServer {ctx s} _ _ _ _ := .refl s.shared
  toDefault {ctx s t} _ ht := by
    rcases toDefault_of_endsIn ht with rfl | rfl
    · exact .refl t.shared
    · exact .refl s.shared
  requeue {ctx s t} _ _ ht := by
    rcases requeue_of_endsIn ht with ⟨-, rfl⟩ | ⟨id, -, rfl⟩
    · exact .refl t.shared
    · exact .refl s.shared
  probed {ctx s} _ _ := .refl s.shared
  component _ _ hbegin h := by
    have hrendered := (beginComponent_proceeds hbegin).trans h
    exact ⟨hrendered, fun ht => hrendered.trans (attach_proceeds ht)⟩

theorem Path.template {side : Shared → Shared → Prop} {w : Bool}
    {R : List (Moment τ) → RenderState τ → RenderState τ → Prop} (h : Path side w R)
    {script : Script} (hscript : Traces w R (script.run τ) script.moments) (kind : RenderedKind)
    (parameter : Option String) :
    Traces w R (script.template kind parameter τ) (script.templateMoments kind parameter) := by
  have hC := h.toCourse
  have hinner := Traces.withContext hscript
    (fun ctx => { ctx with parameter := parameter.getD ctx.parameter }) fun _ => rfl
  cases kind with
  | html => exact hinner
  | attributes =>
    exact .after hC (h.openElement _ _) fun _ => .before hC hinner fun _ =>
      .before hC (h.emit _ trivial) fun _ => h.emit _ trivial

theorem template_proceeds (kind : RenderedKind) (parameter : Option String) (script : Script)
    (h : (script.template kind parameter τ ctx s).EndsIn t) : s.shared.Proceeds t.shared :=
  (trail_proceeds ctx.watched).path.template
    (script.traces_of_coerces reporting_proceeds (fun body _ => coerces_proceeds body)
      (trail_proceeds _).path) kind parameter ctx s t rfl h

/-- However a script ends, the distinct components of its moments have joined the queue. -/
theorem template_queues (kind : RenderedKind) (parameter : Option String) (script : Script)
    (h : (script.template kind parameter τ ctx s).EndsIn t) :
    Queues (script.templateMoments kind parameter ctx s) s t :=
  (Queues.trail ctx.watched).path.template (script.traces Side.trivial (Queues.trail _).path) kind
    parameter
    ctx s t rfl h

end Runs

/-- Some components were synchronized one after the other, and nothing else was done. -/
structure Shared.Synchronizes (sh : Shared) (ids : List ComponentId) (sh' : Shared) : Prop where
  log : sh'.log.toList = sh.log.toList ++ ids.map .synchronized
  savedKeys : sh'.savedKeys = sh.savedKeys
  known : sh'.registry.known = sh.registry.known
  components : ∀ id, sh'.registry.component? id =
    (sh.registry.component? id).map (Component.synchronizedTimes (ids.count id))

theorem synchronizeAll_synchronizes {τ : Type} {ctx : Context} {ids : List ComponentId}
    (h : ∀ id ∈ ids, id ∉ ctx.rendering) (s : RenderState τ) :
    ∃ sh, synchronizeAll ids ctx s = .done () { s with shared := sh } ∧
      s.shared.Synchronizes ids sh := by
  induction ids generalizing s with
  | nil =>
    refine ⟨s.shared, rfl, by simp, rfl, rfl, fun id => ?_⟩
    cases s.shared.registry.component? id <;> simp
  | cons id rest ih =>
    obtain ⟨hid, hrest⟩ := List.forall_mem_cons.1 h
    obtain ⟨sh, hrun, hsync⟩ := ih hrest { s with shared :=
      { s.shared.changeRegistry (·.update id Component.synchronize) with
        log := s.shared.log.push (.synchronized id) } }
    refine ⟨sh, ?_, ?_⟩
    · simp only [synchronizeAll, bind_run, context, if_neg hid]
      exact hrun
    · refine ⟨?_, hsync.savedKeys, hsync.known, fun other => ?_⟩
      · rw [hsync.log]
        simp
      · rw [hsync.components]
        change ((s.shared.registry.update id Component.synchronize).component? other).map _ = _
        rw [Registry.component?_update]
        by_cases heq : id = other
        · subst heq
          cases s.shared.registry.component? id with
          | none => simp
          | some c =>
            simp [Component.synchronize_eq, ← Component.synchronizedTimes_add, Nat.add_comm]
        · simp [heq]

namespace Outcome

variable {σ α : Type}

def all (p : σ → Bool) : Outcome σ α → Bool
  | done _ s => p s
  | failed _ s => p s
  | broken _ => false

def isDone : Outcome σ α → Bool
  | done _ _ => true
  | _ => false

theorem all_of_done {o : Outcome σ α} {p : σ → Bool} (h : o.all p = true) {a : α} {s : σ}
    (ho : o = done a s) : p s = true := by
  rwa [ho] at h

theorem done_of_isDone {o : Outcome σ Unit} (h : o.isDone = true) {s : σ} (hs : o.EndsIn s) :
    o = done () s := by
  rcases hs with ⟨⟨⟩, ho⟩ | ⟨e, rfl⟩
  · exact ho
  · cases h

end Outcome

def Moments.queued {τ : Type} [RenderTarget τ] (ms : List (Moment τ)) : List ComponentId :=
  (ms.filterMap Moment.queued?).eraseDups

section Patch

variable {τ : Type} [RenderTarget τ] {root : NodeId} {mode : PatchMode} {rule : Key.MatchRule}
  {logger : Option LoggerId} {ctx : Context}

/-- A pass that does not break begins, runs its template, ends, and ends as the template did. -/
theorem bracketed_cases {template : RenderM τ Unit} {s : RenderState τ}
    (h : ∀ f, bracketed root mode rule logger template ctx s ≠ .broken f) :
    ∃ node first u node' v, callTarget (.beginPatch root mode rule) ctx s = .done node first ∧
      callTarget .endPatch ctx u = .done node' v ∧
      (template ctx { first with renderer := first.renderer.setLogger logger } = .done () u ∧
          bracketed root mode rule logger template ctx s = .done () v ∨
        ∃ e, template ctx { first with renderer := first.renderer.setLogger logger } = .failed e u ∧
          bracketed root mode rule logger template ctx s = .failed e v) := by
  have hcall : ∀ (call : TargetCall) (s : RenderState τ),
      (∃ node t, callTarget call ctx s = .done node t) ∨ ∃ f, callTarget call ctx s = .broken f := by
    intro call s
    unfold callTarget
    split
    · exact .inr ⟨_, rfl⟩
    · exact .inl ⟨_, _, rfl⟩
  simp only [bracketed, bind_run, setLogger, changeRenderer, attempt] at h ⊢
  obtain ⟨node, first, hfirst⟩ | ⟨f, hf⟩ := hcall (.beginPatch root mode rule) s
  · simp only [hfirst] at h ⊢
    cases ho : template ctx { first with renderer := first.renderer.setLogger logger } with
    | done a u =>
      obtain ⟨node', v, hv⟩ | ⟨f, hf⟩ := hcall .endPatch u
      · exact ⟨_, _, u, node', v, rfl, hv, .inl ⟨ho, by simp only [hv]; rfl⟩⟩
      · simp only [ho, hf] at h
        exact absurd rfl (h f)
    | failed e u =>
      obtain ⟨node', v, hv⟩ | ⟨f, hf⟩ := hcall .endPatch u
      · exact ⟨_, _, u, node', v, rfl, hv, .inr ⟨e, ho, by simp only [hv]; rfl⟩⟩
      · simp only [ho, hf] at h
        exact absurd rfl (h f)
    | broken f =>
      simp only [ho] at h
      exact absurd rfl (h f)
  · simp only [hf] at h
    exact absurd rfl (h f)

theorem queue_callTarget {call : TargetCall} {node : Option NodeId} {s t : RenderState τ}
    (h : callTarget call ctx s = .done node t) : t.renderer.pass.queue = s.renderer.pass.queue :=
  (Queues.callTarget call ctx s t rfl (.inl ⟨_, h⟩)).queue

/-- A pass that does not break runs its template between one beginning and one end of the target,
and nothing is synchronized in between, but by passes that turn scripts into text. If the template
succeeds, each of the distinct components that it queued is synchronized once after the end, in
order of first queueing, and no other. If it fails, the pass fails with that error right after the
end. -/
theorem patch_synchronizes (kind : RenderedKind) (parameter : Option String) (script : Script)
    (root : NodeId) (mode : PatchMode) (rule : Key.MatchRule) (logger : Option LoggerId)
    (ctx : Context) (target : τ) (shared : Shared)
    (h : ∀ f, bracketed root mode rule logger (script.template kind parameter τ) ctx
      ⟨.start target, shared⟩ ≠ .broken f) :
    ∃ begun u ended : RenderState τ,
      (∃ node first, callTarget (.beginPatch root mode rule) ctx ⟨.start target, shared⟩ =
        .done node first ∧ begun = { first with renderer := first.renderer.setLogger logger }) ∧
      (script.template kind parameter τ ctx begun).EndsIn u ∧
      begun.shared.Proceeds u.shared ∧
      (∃ node, callTarget .endPatch ctx u = .done node ended) ∧
      (Moments.queued (script.templateMoments kind parameter ctx begun)).Nodup ∧
      (script.template kind parameter τ ctx begun = .done () u →
        (∀ id ∈ Moments.queued (script.templateMoments kind parameter ctx begun),
          id ∉ ctx.rendering) →
        ∃ t, patch root mode rule logger (script.template kind parameter τ) ctx
            ⟨.start target, shared⟩ = .done () t ∧
          t.renderer = ended.renderer.clearQueue ∧
          ended.shared.Synchronizes
            (Moments.queued (script.templateMoments kind parameter ctx begun)) t.shared) ∧
      ∀ e, script.template kind parameter τ ctx begun = .failed e u →
        patch root mode rule logger (script.template kind parameter τ) ctx
          ⟨.start target, shared⟩ = .failed e ended := by
  obtain ⟨node, first, u, node', v, hfirst, hv, hcases⟩ := bracketed_cases h
  have hends : (script.template kind parameter τ ctx
      { first with renderer := first.renderer.setLogger logger }).EndsIn u := by
    rcases hcases with ⟨hrun, -⟩ | ⟨e, hrun, -⟩
    · exact .inl ⟨_, hrun⟩
    · exact .inr ⟨_, hrun⟩
  have hempty : (first.renderer.setLogger logger).pass.queue = [] :=
    (Renderer.queue_setLogger _ _).trans (queue_callTarget hfirst)
  -- The queue is empty when the template begins, and the end of the target leaves it as it is.
  have hqueue : v.renderer.pass.queue = Moments.queued (script.templateMoments kind parameter ctx
      { first with renderer := first.renderer.setLogger logger }) := by
    rw [queue_callTarget hv, (template_queues kind parameter script hends).queue, hempty]
    exact foldl_queueOnce _
  refine ⟨_, u, v, ⟨node, first, hfirst, rfl⟩, hends, template_proceeds kind parameter script hends,
    ⟨node', hv⟩, nodup_eraseDups _, fun hrun hrendering => ?_, fun e hrun => ?_⟩
  · have hdone : bracketed root mode rule logger (script.template kind parameter τ) ctx
        ⟨.start target, shared⟩ = .done () v := by
      rcases hcases with ⟨-, hdone⟩ | ⟨e, hfailed, -⟩
      · exact hdone
      · cases hrun.symm.trans hfailed
    rw [← hqueue] at hrendering ⊢
    obtain ⟨sh, hsync, hshared⟩ := synchronizeAll_synchronizes hrendering
      { v with renderer := v.renderer.clearQueue }
    refine ⟨⟨v.renderer.clearQueue, sh⟩, ?_, rfl, hshared⟩
    rw [patch, bind_run, hdone]
    exact hsync
  · have hfailed : bracketed root mode rule logger (script.template kind parameter τ) ctx
        ⟨.start target, shared⟩ = .failed e v := by
      rcases hcases with ⟨hdone, -⟩ | ⟨e', hfailed, hbracketed⟩
      · cases hrun.symm.trans hdone
      · cases hrun.symm.trans hfailed
        exact hbracketed
    rw [patch, bind_run, hfailed]

/-- One component is rendered and queued again, and a muted one is queued from below its layer. -/
def queuedTwice : Script :=
  .component ⟨.counter, .text "a", "", "div", "", .opened⟩ .done (.step (.text "x") .done) <|
    .step (.requeue 0) <|
      .block .muted (.component ⟨.counter, .text "b", "", "div", "", .opened⟩ .done .done
        (.step (.requeue 0) .done)) <|
        .block .attempt (.step .toDefault .done) .done

theorem patch_synchronizes_twice :
    (∀ f, bracketed 0 .inner .keyed none (queuedTwice.template .html none KeyedDom)
      (Session.context ⟨"", .null, loggedText, true⟩) (Session.start KeyedDom.new).initial ≠ .broken f) ∧
    ∃ t ended : RenderState KeyedDom,
      patch 0 .inner .keyed none (queuedTwice.template .html none KeyedDom)
        (Session.context ⟨"", .null, loggedText, true⟩) (Session.start KeyedDom.new).initial = .done () t ∧
      ended.shared.Synchronizes [0, 1] t.shared := by
  have hbroken : ∀ f, bracketed 0 .inner .keyed none (queuedTwice.template .html none KeyedDom)
      (Session.context ⟨"", .null, loggedText, true⟩) (Session.start KeyedDom.new).initial ≠
        .broken f := by
    have hdone : (bracketed 0 .inner .keyed none (queuedTwice.template .html none KeyedDom)
        (Session.context ⟨"", .null, loggedText, true⟩)
        (Session.start KeyedDom.new).initial).isDone = true := by decide +kernel
    intro f hf
    rw [hf] at hdone
    cases hdone
  refine ⟨hbroken, ?_⟩
  obtain ⟨_, u, ended, ⟨node, first, hfirst, rfl⟩, hends, -, -, -, hdone, -⟩ :=
    patch_synchronizes .html none queuedTwice 0 .inner .keyed none
      (Session.context ⟨"", .null, loggedText, true⟩) KeyedDom.new ⟨.empty, [], #[]⟩ hbroken
  have hrun : (callTarget (.beginPatch 0 .inner .keyed) (Session.context ⟨"", .null, loggedText, true⟩)
      (Session.start KeyedDom.new).initial).all (fun first =>
        let begun := { first with renderer := first.renderer.setLogger none }
        (queuedTwice.template .html none KeyedDom (Session.context ⟨"", .null, loggedText, true⟩)
          begun).isDone &&
        Moments.queued (queuedTwice.templateMoments .html none
          (Session.context ⟨"", .null, loggedText, true⟩) begun) = [0, 1]) = true := by decide +kernel
  obtain ⟨hscript, hids⟩ := Bool.and_eq_true_iff.1 (Outcome.all_of_done hrun hfirst)
  rw [of_decide_eq_true hids] at hdone
  obtain ⟨t, ht, -, hsync⟩ := hdone (Outcome.done_of_isDone hscript hends) (by simp [Session.context])
  exact ⟨t, ended, ht, hsync⟩

end Patch

end KeyedRender

import KeyedRender.Proofs.Session.Reached

/-!
# The moments of a run

The moments of a run are the steps that it comes to on one target, in order, each with the state
that it starts in. A step that fails is the last one, unless the error is caught. What a block
runs on a target of its own belongs to other runs.
-/
namespace KeyedRender

structure Moment (τ : Type) where
  question : Question
  context : Context
  state : RenderState τ

abbrev Moments (τ : Type) : Type := Context → RenderState τ → List (Moment τ)

variable {τ α : Type}

def RenderState.push (s : RenderState τ) (layer : Layer) : RenderState τ :=
  { s with renderer := s.renderer.push layer }

def RenderState.muted (s : RenderState τ) : RenderState τ :=
  s.push (.muted .empty s.renderer.logger?)

namespace Moments

def none : Moments τ := fun _ _ => []

def after (m : RenderM τ α) (next : α → Moments τ) : Moments τ := fun ctx s =>
  match m ctx s with
  | .done a t => next a ctx t
  | _ => []

def within (change : Context → Context) (ms : Moments τ) : Moments τ := fun ctx s =>
  ms (change ctx) s

def under (layer : Layer) (ms : Moments τ) : Moments τ := fun ctx s => ms ctx (s.push layer)

def shielded (ms : Moments τ) : Moments τ := fun ctx s =>
  ms ctx s.muted

def muted (ms : Moments τ) : Moments τ := fun ctx s =>
  match s.renderer.kind with
  | .default => ms.shielded ctx s
  | .muted => []
  | .probe => ms ctx s

end Moments

namespace RenderM

variable [RenderTarget τ]

def enterComponent (id : ComponentId) : RenderM τ ComponentId := do
  enqueue id
  if id ∈ (← context).rendering then breakWith (.reentered id)
  changeRegistry (·.update id Component.countRender)
  return id

def beginComponent (spec : ComponentSpec) : RenderM τ ComponentId := do
  let key := Key.encode spec.first ++ (← renderer).currentKey
  match ← findComponent? spec.type key with
  | some id => enterComponent id
  | none => enterComponent (← createComponent spec.type key spec.label)

def renderBegun (spec : ComponentSpec) (before body : RenderM τ Unit) (id : ComponentId) :
    RenderM τ (Option NodeId) :=
  withContext (fun ctx => { ctx with rendering := id :: ctx.rendering })
    (renderRoot spec before body)

def finishComponent (id : ComponentId) (root : Option NodeId) :
    RenderM τ (Option ComponentId) := do
  match root with
  | some node => attach id node
  | none => pure ()
  return some id

section

variable (spec : ComponentSpec) (before body : RenderM τ Unit)

theorem renderInstance_eq (id : ComponentId) : renderInstance id spec before body = (do
    let id ← enterComponent id
    finishComponent id (← renderBegun spec before body id)) := by
  funext ctx s
  simp only [renderInstance, enterComponent, bind_run, enqueue, changeRenderer, context]
  by_cases h : id ∈ ctx.rendering
  · simp only [if_pos h]
    rfl
  · simp only [if_neg h]
    rfl

theorem renderComponent_eq : renderComponent spec before body = (do
    if (← renderer).kind = .probe then
      changeRenderer Renderer.markRendered
      return none
    else
      let id ← beginComponent spec
      finishComponent id (← renderBegun spec before body id)) := by
  simp only [renderComponent, beginComponent, bind_assoc, renderInstance_eq]
  funext ctx s
  simp only [bind_run, renderer]
  split
  · rfl
  · refine congrFun (congrFun (congrArg (findComponent? spec.type _ >>= ·) (funext ?_)) ctx) s
    rintro (_ | id) <;> simp only [bind_assoc]

end

end RenderM

variable [RenderTarget τ]

def Block.moments (b : Block) (body : Moments τ) : Moments τ :=
  match b with
  | .openServerElement name key parameters =>
    .after (RenderM.openServerElement name key parameters) fun renders =>
      .after (RenderM.answer (.block (.openServerElement name key parameters))
        (some (.flag renders))) fun _ => if renders then body else .none
  | .attempt => body
  | .probe => body.under (.probe false)
  | .muted => body.muted
  | .shielded => body.shielded
  | .isTruthy => body.under (.probe false)
  | .print => body
  | .printContent => body
  | .callHtml .html parameter =>
    body.within fun ctx => { ctx with parameter := parameter.getD ctx.parameter }
  | .callAttributes .attributes parameter _ =>
    body.within fun ctx => { ctx with parameter := parameter.getD ctx.parameter }
  | .functionTruth _ => body.under (.probe false)
  | .functionCall _ => body
  | .printAttributes .attributes _ => body
  | _ => .none

namespace ComponentSpec

def rootMoments (spec : ComponentSpec) (body : Moments τ) : Moments τ :=
  match spec.root with
  | .text => .none
  | .bare _ => .none
  | _ => .after (RenderM.openElement spec.name spec.key) fun _ => body

def moments (spec : ComponentSpec) (before : RenderM τ Unit) (ofBefore body : Moments τ) :
    Moments τ := fun ctx s =>
  if s.renderer.kind = .probe then []
  else
    Moments.after (RenderM.beginComponent spec) (fun id =>
      Moments.within (fun ctx => { ctx with rendering := id :: ctx.rendering }) fun ctx s =>
        ofBefore ctx s ++ Moments.after before (fun _ => spec.rootMoments body) ctx s) ctx s

end ComponentSpec

namespace RenderM

def stepInstruction (i : Instruction) : RenderM τ Unit := do
  answer (.instruction i) (← i.perform)

def stepBlock (b : Block) (body : Rendering) : RenderM τ Unit := do
  answer (.block b) (← b.perform body)

def stepComponent (spec : ComponentSpec) (before body : RenderM τ Unit) : RenderM τ Unit := do
  let report ← match ← renderComponent spec before body with
    | some id => introduce id
    | none => pure none
  answer (.component spec) (some (.component report))

end RenderM

def Script.moments : Script → Moments τ
  | .done => .none
  | .step i next => fun ctx s =>
    ⟨.instruction i, ctx, s⟩ ::
      Moments.after (RenderM.stepInstruction i) (fun _ => next.moments) ctx s
  | .block b body next => fun ctx s =>
    ⟨.block b, ctx, s⟩ :: b.moments body.moments ctx s ++
      Moments.after (RenderM.stepBlock b fun σ _ => body.run σ) (fun _ => next.moments) ctx s
  | .component spec before body next => fun ctx s =>
    ⟨.component spec, ctx, s⟩ ::
      spec.moments (before.run τ) before.moments body.moments ctx s ++
      Moments.after (RenderM.stepComponent spec (before.run τ) (body.run τ))
        (fun _ => next.moments) ctx s

namespace Script

theorem run_step (i : Instruction) (next : Script) :
    (Script.step i next).run τ = RenderM.stepInstruction i >>= fun _ => next.run τ := by
  simp only [run, RenderM.stepInstruction, bind_assoc]

theorem run_block (b : Block) (body next : Script) : (Script.block b body next).run τ =
    RenderM.stepBlock b (fun σ _ => body.run σ) >>= fun _ => next.run τ := by
  simp only [run, RenderM.stepBlock, bind_assoc]

theorem run_component (spec : ComponentSpec) (before body next : Script) :
    (Script.component spec before body next).run τ =
      RenderM.stepComponent spec (before.run τ) (body.run τ) >>= fun _ => next.run τ := by
  simp only [run, RenderM.stepComponent, bind_assoc]
  congr 1
  funext id?
  cases id? <;> simp only [bind_assoc]

end Script

def Question.Fits (p : Instruction → Prop) : Question → Prop
  | .instruction i => p i
  | _ => True

namespace Moments

def Fit (p : Instruction → Prop) (ms : Moments τ) : Prop :=
  ∀ ctx s, ∀ m ∈ ms ctx s, m.question.Fits p

namespace Fit

variable {p : Instruction → Prop} {ms : Moments τ}

omit [RenderTarget τ] in
theorem none : Fit p (Moments.none : Moments τ) := fun _ _ _ hm => absurd hm List.not_mem_nil

omit [RenderTarget τ] in
theorem after (m : RenderM τ α) {next : α → Moments τ} (h : ∀ a, (next a).Fit p) :
    (Moments.after m next).Fit p := by
  intro ctx s m' hm
  unfold Moments.after at hm
  split at hm
  · exact h _ _ _ m' hm
  · exact absurd hm List.not_mem_nil

omit [RenderTarget τ] in
theorem append {ms' : Moments τ} (h : ms.Fit p) (h' : ms'.Fit p) :
    Fit p fun ctx s => ms ctx s ++ ms' ctx s :=
  fun ctx s m hm => (List.mem_append.1 hm).elim (h ctx s m) (h' ctx s m)

omit [RenderTarget τ] in
theorem muted (h : ms.Fit p) : ms.muted.Fit p := by
  intro ctx s m hm
  unfold Moments.muted at hm
  split at hm
  · exact h ctx _ m hm
  · exact absurd hm List.not_mem_nil
  · exact h ctx s m hm

theorem block (h : ms.Fit p) (b : Block) : (b.moments ms).Fit p := by
  cases b with
  | openServerElement name key parameters =>
    refine after _ fun renders => after _ fun _ => ?_
    cases renders with
    | true => exact h
    | false => exact none
  | attempt => exact h
  | probe => exact fun ctx s => h ctx _
  | muted => exact h.muted
  | shielded => exact fun ctx s => h ctx _
  | isTruthy => exact fun ctx s => h ctx _
  | print => exact h
  | printContent => exact h
  | callHtml kind parameter =>
    cases kind with
    | html => exact fun ctx s => h _ s
    | attributes => exact none
  | callAttributes kind parameter filter =>
    cases kind with
    | html => exact none
    | attributes => exact fun ctx s => h _ s
  | functionTruth kind => exact fun ctx s => h ctx _
  | functionCall kind => exact h
  | printAttributes kind filter =>
    cases kind with
    | html => exact none
    | attributes => exact h
  | _ => exact none

theorem component (spec : ComponentSpec) (before : RenderM τ Unit) {mb : Moments τ}
    (hb : mb.Fit p) (h : ms.Fit p) : (spec.moments before mb ms).Fit p := by
  have hroot : (spec.rootMoments ms).Fit p := by
    unfold ComponentSpec.rootMoments
    split
    · exact none
    · exact none
    · exact after _ fun _ => h
  intro ctx s m hm
  unfold ComponentSpec.moments at hm
  split at hm
  · exact absurd hm List.not_mem_nil
  · exact after _ (fun id ctx s => hb.append (after before fun _ => hroot) _ s) ctx s m hm

end Fit

end Moments

theorem Script.fit_moments {p : Instruction → Prop} {script : Script} (h : script.All p) :
    (script.moments (τ := τ)).Fit p := by
  induction script with
  | done => exact .none
  | step i next ih =>
    intro ctx s m hm
    rcases List.mem_cons.1 hm with rfl | hm
    · exact h.1
    · exact Moments.Fit.after _ (fun _ => ih h.2) ctx s m hm
  | block b body next ihbody ih =>
    intro ctx s m hm
    rcases List.mem_cons.1 hm with rfl | hm
    · exact trivial
    · exact ((ihbody h.1).block b).append (.after _ fun _ => ih h.2) ctx s m hm
  | component spec before body next ihbefore ihbody ih =>
    intro ctx s m hm
    rcases List.mem_cons.1 hm with rfl | hm
    · exact trivial
    · exact (Moments.Fit.component spec _ (ihbefore h.1) (ihbody h.2.1)).append
        (.after _ fun _ => ih h.2.2) ctx s m hm

end KeyedRender

import KeyedRender.Proofs.Render.Mirror
import KeyedRender.Proofs.Script.Moments
import KeyedRender.Proofs.Script.Steady

/-!
# Scripts on targets that mirror each other

Two targets that mirror each other run a script in step, whatever it calls and wherever it fails.
Only what a script does behind the back of its renderer is left out: looking at nodes, and
comments and markup that it writes to the target itself.
-/
namespace KeyedRender

open RenderM

def Instruction.IsRendered : Instruction → Prop
  | .inspect _ => False
  | .appendComment _ _ => False
  | .setInnerMarkup _ _ => False
  | _ => True

def Mirror.same : Mirror MarkupWriter MarkupWriter where
  alike := Eq
  opened _ := Eq
  commented := Eq
  documents := by rintro t _ rfl; rfl
  pointer _ := ⟨rfl, rfl⟩
  current := by rintro t _ rfl; rfl
  plain := by rintro t _ rfl call _; exact ⟨_, _, _, rfl, rfl, rfl⟩
  opens := by rintro t _ rfl name key; exact ⟨_, _, _, rfl, rfl, _, rfl, rfl⟩
  alike_of_opened h := h
  assigns := by rintro node t _ rfl call _; exact ⟨_, _, _, rfl, rfl, rfl⟩
  content := by rintro node t _ rfl; rfl
  described := by rintro node t _ rfl _; rfl
  fills := by rintro node t _ rfl markup; exact ⟨_, _, _, rfl, rfl, rfl⟩
  comments := by rintro t _ rfl node _ value; exact ⟨_, _, _, rfl, rfl, rfl⟩
  passes := by rintro t _ rfl; exact ⟨_, _, _, rfl, rfl, rfl⟩
  records := by rintro t _ rfl node change; rfl
  attaches := by rintro t _ rfl id c root; rfl

def Steps (template : Rendering) : Prop :=
  InStep (Eq : MarkupWriter → MarkupWriter → Prop) (template MarkupWriter) (template MarkupWriter)

theorem Steps.withParameter {template : Rendering} (h : Steps template)
    (parameter : Option String) :
    Steps fun σ _ => RenderM.withParameter parameter (template σ) :=
  .withContext h _

namespace Mirror

section

variable {τ ρ α β : Type} [RenderTarget τ] [RenderTarget ρ] (M : Mirror τ ρ)

theorem patch {m : RenderM MarkupWriter Unit}
    (hm : InStep (Eq : MarkupWriter → MarkupWriter → Prop) m m)
    (root : NodeId) (mode : PatchMode) (rule : Key.MatchRule) (logger : Option LoggerId) :
    InStep (Eq : MarkupWriter → MarkupWriter → Prop) (RenderM.patch root mode rule logger m)
      (RenderM.patch root mode rule logger m) := by
  have call : ∀ call, Paired (Alongside Eq) (Alongside Eq)
      (RenderM.callTarget (τ := MarkupWriter) call) (RenderM.callTarget call)
      fun _ => Alongside Eq := fun call =>
    .callTarget fun t u h => h ▸ ⟨_, _, _, rfl, rfl, rfl⟩
  refine .bind (.bind (call _) fun _ => .bind (.setLogger _) fun _ => ?_) fun _ => .flushQueue
  refine .bind (Q := fun _ => Alongside Eq) (hm.attempt.post fun result s s' hs => ?_)
    fun result => ?_
  · cases result <;> exact hs
  · exact .bind (call _) fun _ => .resume fun _ _ hs => hs

theorem detour {start : Renderer MarkupWriter} {m : RenderM MarkupWriter α}
    (hm : InStep (Eq : MarkupWriter → MarkupWriter → Prop) m m) :
    InStep M.alike (RenderM.detour start m) (RenderM.detour start m) := by
  rintro ctx s _ ⟨hblind, u, hu, rfl⟩
  have hinside : (m { ctx with watched := false, pinned := s.renderer.held ++ ctx.pinned }
      ⟨start, s.shared⟩).Matches _ _ (m _ ⟨start, s.shared⟩) :=
    hm _ ⟨start, s.shared⟩ _ ⟨hblind, _, rfl, rfl⟩
  simp only [RenderM.detour, M.held_on hu]
  generalize m { ctx with watched := false, pinned := s.renderer.held ++ ctx.pinned }
    ⟨start, s.shared⟩ = o at hinside
  cases o with
  | done a t =>
    cases hinside with
    | done hafter => exact .done ⟨hafter.1, u, hu, rfl⟩
  | failed e t =>
    cases hinside with
    | failed hafter => exact .failed ⟨hafter.1, u, hu, rfl⟩
  | broken f => exact .broken

theorem write {template : Rendering} (h : Steps template) :
    InStep M.alike (RenderM.write (τ := τ) template) (RenderM.write (τ := ρ) template) :=
  .bind .logger? fun _ => .bind (M.detour (patch h _ _ _ _)) fun _ => .pure fun _ _ hs => hs

theorem htmlText {template : Rendering} (h : Steps template) :
    InStep M.alike (RenderM.htmlText (τ := τ) template) (RenderM.htmlText (τ := ρ) template) :=
  .returning (M.write h)

theorem attributesText {template : Rendering} (h : Steps template) :
    InStep M.alike (RenderM.attributesText (τ := τ) template)
      (RenderM.attributesText (τ := ρ) template) := by
  refine .bind (M.write ?_) fun written => ?_
  · refine .bind (Q := fun _ => Alongside Eq) ?_ fun _ => .bind h fun _ => ?_
    · exact (same.openElement "div" "").post fun _ _ _ hs => hs.mono fun _ _ h =>
        same.alike_of_openedOr h
    · exact .bind (same.emit trivial) fun _ => same.emit trivial
  · split <;> exact .pure fun _ _ hs => hs

theorem renderedText (kind : RenderedKind) {template : Rendering} (h : Steps template) :
    InStep M.alike (RenderM.renderedText (τ := τ) kind template)
      (RenderM.renderedText (τ := ρ) kind template) := by
  cases kind with
  | html => exact M.htmlText h
  | attributes => exact M.attributesText h

theorem printAttributes (sanitized : Bool) (markup : String) (filter : Filter) :
    InStep M.alike (RenderM.printAttributes (τ := τ) sanitized markup filter)
      (RenderM.printAttributes (τ := ρ) sanitized markup filter) := M.setAttributes _

theorem templateText (template : TextTemplate) :
    InStep M.alike (RenderM.templateText (τ := τ) template)
      (RenderM.templateText (τ := ρ) template) := .context fun _ => .pure fun _ _ hs => hs

theorem answer {question : Question} {a : Option Answer}
    (h : ∀ a', a = some a' → (Event.answer question a').IsBlind) :
    InStep M.alike (RenderM.answer (τ := τ) question a) (RenderM.answer (τ := ρ) question a) := by
  cases a with
  | none => exact .pure fun _ _ hs => hs
  | some a => exact .log (h a rfl)

theorem onTarget {m : RenderM τ (Option Answer)} {m' : RenderM ρ (Option Answer)}
    (h : InStep M.alike m m') : InStep M.alike (RenderM.onTarget m) (RenderM.onTarget m') := by
  refine .renderer fun r u _ => ?_
  have htarget : (r.on u).target?.isSome = r.target?.isSome := by
    rw [Renderer.target?_on, Option.isSome_map]
  rw [htarget]
  exact .ite h (.pure fun _ _ hs => hs)

theorem perform {i : Instruction} (hi : i.IsRendered) (hpointer : i ≠ .pointer) :
    InStep M.alike (i.perform (τ := τ)) (i.perform (τ := ρ)) := by
  have still : ∀ {α : Type} {a : α}, InStep M.alike (pure a : RenderM τ α) (pure a) :=
    .pure fun _ _ hs => hs
  cases i with
  | inspect node => exact hi.elim
  | appendComment parent value => exact hi.elim
  | setInnerMarkup node markup => exact hi.elim
  | pointer => exact absurd rfl hpointer
  | kind => exact .renderer fun _ _ _ => still
  | openElement name key =>
    refine .bind (Q := fun _ => Alongside M.alike) ?_ fun _ => still
    exact (M.openElement name key).post fun _ _ _ hs => hs.mono fun _ _ h => M.alike_of_openedOr h
  | closeElement => exact .returning M.closeElement
  | text value => exact .returning (M.text value)
  | current =>
    refine .returning (.renderer fun r u hu => ?_)
    have hcurrent : (r.on u).target?.bind RenderTarget.current? =
        r.target?.bind RenderTarget.current? := by
      rw [Renderer.target?_on]
      cases ht : r.target? with
      | none => rfl
      | some t =>
        obtain ⟨-, rfl⟩ := Renderer.target?_eq_some_iff.1 ht
        exact (M.current hu).symm
    rw [hcurrent]
    exact still
  | parameter => exact .context fun _ => .returning (M.text _)
  | injected => exact .context fun _ => .returning (M.text _)
  | maybeSkip told => exact .returning (M.maybeSkip told)
  | pushKey fragment =>
    exact .bind (.pushKey fragment) fun previous => .bind (.saveKey previous) fun _ => still
  | newKey fragment => exact .renderer fun _ _ _ => still
  | currentKey => exact .renderer fun _ _ _ => still
  | decodeCurrentKey => exact .renderer fun _ _ _ => still
  | decodeKey encoded =>
    simp only [Instruction.perform]
    split
    · exact .fail fun _ _ hs => hs
    · exact still
  | toDefault => exact .bind (.toDefault fun _ _ hs => hs) fun _ => still
  | verifyLogOnly logOnly => exact .returning (.verifyLogOnly (fun _ _ hs => hs) logOnly)
  | evaluateLogging name arguments placeholder =>
    exact .returning (.evaluateLogging name arguments placeholder)
  | logger => exact .returning .logger?
  | isTruthy value => exact still
  | requeue index => exact .returning (M.requeue index)
  | callText template escaper => exact .returning (M.templateText template)
  | templateKind kind => exact still
  | functionKind kind => exact still
  | setComment node value =>
    refine M.onTarget (.bind (Q := fun _ => Alongside M.alike) ?_ fun _ => still)
    exact .callTarget fun _ _ h => M.plain h trivial
  | pushManualKey fragment => exact .bind (.changeKeys _) fun _ => still
  | popManualKey => exact .bind (.changeKeys _) fun _ => still
  | popKey previous? =>
    cases previous? with
    | some previous => exact .bind (.changeKeys _) fun _ => still
    | none => exact .bind .takeSavedKey fun _ => .bind (.changeKeys _) fun _ => still
  | setAttribute name value => exact .bind (M.setAttribute name value) fun _ => still
  | skip => exact .bind (M.emit trivial) fun _ => still
  | skipNode => exact .bind (M.emit trivial) fun _ => still
  | applyAttributes => exact .bind (M.emit trivial) fun _ => still
  | applyStatics attributes => exact .bind (M.emit trivial) fun _ => still
  | enter element logOnly => exact .bind (.callLogger _) fun _ => still
  | exit => exact .bind (.callLogger _) fun _ => still
  | setLogger logger => exact .bind (.setLogger logger) fun _ => still
  | comment value => exact .bind (M.comment value) fun _ => still
  | print value => exact .bind (M.print value) fun _ => still
  | printContent value => exact .bind (M.printContent value) fun _ => still
  | callHtml template =>
    exact .bind (M.templateText template) fun _ => .bind (M.text _) fun _ => still
  | callAttributes template filter =>
    exact .bind (M.templateText template) fun _ => .bind (M.printAttributes _ _ _) fun _ => still
  | callEscaped template escaper =>
    exact .bind (M.templateText template) fun _ => .bind (M.text _) fun _ => still
  | printAttributes sanitized markup filter =>
    exact .bind (M.printAttributes _ _ _) fun _ => still

theorem stepInstruction {i : Instruction} (hi : i.IsRendered) :
    InStep M.alike (RenderM.stepInstruction (τ := τ) i) (RenderM.stepInstruction (τ := ρ) i) := by
  by_cases hpointer : i = .pointer
  · subst hpointer
    rintro ctx s _ ⟨hblind, u, hu, rfl⟩
    have hnone : s.renderer.target?.bind RenderTarget.pointer? = none ∧
        (s.renderer.on u).target?.bind RenderTarget.pointer? = none := by
      rw [Renderer.target?_on]
      cases ht : s.renderer.target? with
      | none => exact ⟨rfl, rfl⟩
      | some t =>
        obtain ⟨-, rfl⟩ := Renderer.target?_eq_some_iff.1 ht
        exact M.pointer hu
    have hrun : ∀ {σ : Type} [RenderTarget σ] (x : RenderState σ),
        RenderM.stepInstruction .pointer ctx x = RenderM.answer (.instruction .pointer)
          (some (.node (x.renderer.target?.bind RenderTarget.pointer?))) ctx x := fun _ => rfl
    rw [hrun, hrun, hnone.1, hnone.2]
    exact M.answer (by rintro _ ⟨⟩; trivial) ctx s _ ⟨hblind, u, hu, rfl⟩
  · refine .bind (M.perform hi hpointer) fun a => M.answer fun a' _ => ?_
    cases i with
    | pointer => exact absurd rfl hpointer
    | _ => trivial

section Blocks

variable {body : Rendering} (haside : Steps body) (hbody : InStep M.alike (body τ) (body ρ))
include haside hbody

theorem performBlock (b : Block) :
    InStep M.alike (b.perform (τ := τ) body) (b.perform (τ := ρ) body) := by
  have still : ∀ {α : Type} {a : α}, InStep M.alike (pure a : RenderM τ α) (pure a) :=
    .pure fun _ _ hs => hs
  have parametrized : ∀ parameter, InStep M.alike (RenderM.withParameter parameter (body τ))
      (RenderM.withParameter parameter (body ρ)) := fun _ => .withContext hbody _
  cases b with
  | openServerElement name key parameters =>
    refine .bind (M.openServerElement name key parameters) fun renders => ?_
    refine .bind (M.answer fun _ _ => trivial) fun _ => ?_
    exact .ite (.bind hbody fun _ => still) still
  | attempt =>
    refine .bind (Q := fun _ => Alongside M.alike) (hbody.attempt.post fun result s s' hs => ?_)
      fun result => ?_
    · cases result <;> exact hs
    · cases result <;> exact still
  | probe => exact .returning (.probe hbody)
  | coerce kind => exact .returning (M.renderedText kind haside)
  | muted => exact .bind (.muted hbody) fun _ => still
  | shielded => exact .bind (.shielded hbody) fun _ => still
  | isTruthy => exact .returning (.probe hbody)
  | print => exact .bind hbody fun _ => still
  | printContent => exact .bind hbody fun _ => still
  | callHtml kind parameter =>
    cases kind with
    | html => exact .bind (parametrized parameter) fun _ => still
    | attributes =>
      exact .bind (.bind (M.attributesText (haside.withParameter parameter)) fun _ =>
        .bind (M.text _) fun _ => still) fun _ => still
  | callAttributes kind parameter filter =>
    cases kind with
    | attributes => exact .bind (parametrized parameter) fun _ => still
    | html =>
      exact .bind (.bind (M.htmlText (haside.withParameter parameter)) fun _ =>
        M.printAttributes _ _ _) fun _ => still
  | callText kind parameter escaper =>
    exact .returning (.returning (M.renderedText kind (haside.withParameter parameter)))
  | callEscaped kind parameter escaper =>
    exact .bind (.returning (M.renderedText kind (haside.withParameter parameter))) fun _ =>
      .bind (M.text _) fun _ => still
  | functionText kind => exact .returning (M.renderedText kind haside)
  | functionTruth kind => exact .returning (.probe hbody)
  | functionCall kind => exact .bind hbody fun _ => still
  | printAttributes kind filter =>
    cases kind with
    | attributes => exact .bind hbody fun _ => still
    | html =>
      exact .bind (.bind (M.htmlText haside) fun _ => M.printAttributes _ _ _) fun _ => still

theorem stepBlock (b : Block) :
    InStep M.alike (RenderM.stepBlock (τ := τ) b body) (RenderM.stepBlock (τ := ρ) b body) :=
  .bind (M.performBlock haside hbody b) fun _ => M.answer fun _ _ => trivial

end Blocks

section Components

variable (spec : ComponentSpec) {before body : RenderM τ Unit} {before' body' : RenderM ρ Unit}
  (hbefore : InStep M.alike before before') (hbody : InStep M.alike body body')
include hbefore hbody

theorem renderRoot :
    InStep M.alike (RenderM.renderRoot spec before body)
      (RenderM.renderRoot spec before' body') := by
  refine .bind hbefore fun _ => ?_
  have element : ∀ f : Option NodeId → Option NodeId, InStep M.alike (do
      let root ← RenderM.openElement spec.name spec.key
      body
      RenderM.emit .closeElement
      return f root) (do
      let root ← RenderM.openElement spec.name spec.key
      body'
      RenderM.emit .closeElement
      return f root) := fun f => by
    refine .bind (Q := fun _ => Alongside M.alike) ?_ fun root =>
      .bind hbody fun _ => .bind (M.emit trivial) fun _ => .pure fun _ _ hs => hs
    exact (M.openElement _ _).post fun _ _ _ hs => hs.mono fun _ _ h => M.alike_of_openedOr h
  cases spec.root with
  | text => exact M.text _
  | bare node => exact .pure fun _ _ hs => hs
  | opened => exact element id
  | none => exact element fun _ => none
  | given node => exact element fun _ => some node

theorem renderInstance (id : ComponentId) :
    InStep M.alike (RenderM.renderInstance id spec before body)
      (RenderM.renderInstance id spec before' body') := by
  refine .bind (.enqueue id) fun _ => .context fun ctx => ?_
  refine .ite .breakThen (.bind (.changeRegistry _) fun _ =>
    .bind (.withContext (M.renderRoot spec hbefore hbody) _) fun root => ?_)
  cases root with
  | none => exact .pure fun _ _ hs => hs
  | some node => exact .bind (M.attach id node) fun _ => .pure fun _ _ hs => hs

theorem renderComponent : InStep M.alike (RenderM.renderComponent spec before body)
    (RenderM.renderComponent spec before' body') := by
  refine .renderer fun r u _ => .ite (.bind .markRendered fun _ => .pure fun _ _ hs => hs) ?_
  refine .bind (M.findComponent? _ _) fun found => ?_
  cases found with
  | none =>
    exact .bind (.createComponent _ _ _) fun id => M.renderInstance spec hbefore hbody id
  | some id => exact M.renderInstance spec hbefore hbody id

theorem stepComponent : InStep M.alike (RenderM.stepComponent spec before body)
    (RenderM.stepComponent spec before' body') := by
  refine .bind (M.renderComponent spec hbefore hbody) fun id? => ?_
  cases id? with
  | none => exact .bind (.pure fun _ _ hs => hs) fun _ => M.answer fun _ _ => trivial
  | some id => exact .bind (.introduce id) fun _ => M.answer fun _ _ => trivial

end Components

end

end Mirror

/-- Targets that mirror each other run a script in step. What its blocks render on a target of
its own is in step with itself. -/
theorem Script.inStep (script : Script) (h : script.All Instruction.IsRendered) :
    ∀ {τ ρ : Type} [RenderTarget τ] [RenderTarget ρ] (M : Mirror τ ρ),
      InStep M.alike (script.run τ) (script.run ρ) := by
  induction script with
  | done => exact fun M => .pure fun _ _ hs => hs
  | step i next ih =>
    intro τ ρ _ _ M
    rw [run_step, run_step]
    exact .bind (M.stepInstruction h.1) fun _ => ih h.2 M
  | block b body next ihbody ih =>
    intro τ ρ _ _ M
    rw [run_block, run_block]
    have haside : Steps fun σ _ => body.run σ := ihbody h.1 .same
    exact .bind (M.stepBlock haside (ihbody h.1 M) b) fun _ => ih h.2 M
  | component spec before body next ihbefore ihbody ih =>
    intro τ ρ _ _ M
    rw [run_component, run_component]
    exact .bind (M.stepComponent spec (ihbefore h.1 M) (ihbody h.2.1 M)) fun _ => ih h.2.2 M

end KeyedRender

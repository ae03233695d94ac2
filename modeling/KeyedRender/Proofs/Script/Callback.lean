import KeyedRender.Proofs.Render.Writing

/-!
# Callbacks

A callback is a template that also asks, after an element was opened, whether to skip its content,
and leaves out a body if it does. Callbacks that keep to calls which every renderer answers follow
themselves wherever renderers are in lockstep: what they do on a default renderer, step by step,
they do on the other one.
-/
namespace KeyedRender

inductive Callback
  | done
  | step (instruction : Instruction) (next : Callback)
  | block (block : Block) (body next : Callback)
  | unlessSkipped (skip : Bool) (body next : Callback)

open RenderM

namespace Callback

def run : Callback → Rendering
  | .done, _, _ => return ()
  | .step instruction next, σ, _ => do
    answer (.instruction instruction) (← instruction.perform)
    next.run σ
  | .block b body next, σ, _ => do
    answer (.block b) (← b.perform fun ρ _ => body.run ρ)
    next.run σ
  | .unlessSkipped skip body next, σ, _ => do
    let skipped ← maybeSkip skip
    answer (.instruction (.maybeSkip skip)) (some (.flag skipped))
    if !skipped then body.run σ
    next.run σ

end Callback

/-- Neither muting nor logging that has to take place, no comments, no queue, and nothing behind the
renderer's back. -/
def Instruction.IsOrdinary : Instruction → Prop
  | .maybeSkip _ | .toDefault | .verifyLogOnly _ | .setLogger _ | .requeue _ | .inspect _
  | .appendComment _ _ | .setInnerMarkup _ _ | .setComment _ _ | .comment _ => False
  | _ => True

def Instruction.opens : Instruction → Bool
  | .openElement _ _ => true
  | _ => false

def Block.IsOrdinary : Block → Prop
  | .attempt | .probe | .muted | .shielded | .isTruthy | .functionTruth _ => False
  | _ => True

/-- The body is rendered in place. -/
def Block.inPlace : Block → Bool
  | .print | .printContent | .functionCall _ => true
  | .callHtml .html _ | .callAttributes .attributes _ _ | .printAttributes .attributes _ => true
  | _ => false

/-- An element is opened by the block or, in place, by its body. -/
def Block.opens (b : Block) (body : Bool) : Bool :=
  match b with
  | .openServerElement _ _ _ => true
  | b => b.inPlace && body

namespace Callback

def opens : Callback → Bool
  | .done => false
  | .step instruction next => instruction.opens || next.opens
  | .block b body next => b.opens body.opens || next.opens
  | .unlessSkipped _ _ next => next.opens

/-- Only ordinary calls are made, and content is skipped only after an element was opened. What is
turned into text need not open an element of its own. -/
def IsOrdinary (opened : Bool) : Callback → Prop
  | .done => True
  | .step instruction next =>
    instruction.IsOrdinary ∧ next.IsOrdinary (opened || instruction.opens)
  | .block b body next =>
    b.IsOrdinary ∧ body.IsOrdinary (opened || !b.inPlace) ∧
      next.IsOrdinary (opened || b.opens body.opens)
  | .unlessSkipped _ body next =>
    opened = true ∧ body.IsOrdinary true ∧ next.IsOrdinary true

end Callback

namespace Lockstep

variable {ρ : Type} [RenderTarget ρ] {watched : Bool}
  {X : Bool → RenderState MarkupWriter → RenderState ρ → Prop} (L : Lockstep watched X) {o : Bool}

omit [RenderTarget ρ] in
theorem withTemplateText (template : TextTemplate) {α β : Type} {next : String → RenderM MarkupWriter α}
    {next' : String → RenderM ρ β}
    (h : ∀ text, Follows watched (X o) (next text) (next' text) fun _ _ => X o) :
    Follows watched (X o) (RenderM.templateText template >>= next)
      (RenderM.templateText template >>= next') fun _ _ => X o :=
  .bind_same (templateText template) h

include L

theorem performStill {i : Instruction} (hi : i.IsOrdinary) (hopens : i.opens = false) :
    Follows watched (X o) i.perform i.perform fun _ _ => X o := by
  have still : ∀ {α β : Type} {a : α} {b : β},
      Follows watched (X o) (pure a : RenderM MarkupWriter α) (pure b : RenderM ρ β)
        fun _ _ => X o := .pure fun _ _ hs => hs
  have after : ∀ {α β γ δ : Type} {a : γ} {b : δ} {m : RenderM MarkupWriter α} {m' : RenderM ρ β},
      Follows watched (X o) m m' (fun _ _ => X true) →
      Follows watched (X o) (m >>= fun _ => pure a) (m' >>= fun _ => pure b) fun _ _ => X o :=
    fun h => .bind h fun _ _ => .pure fun _ _ hs => L.weaken hs
  have reads : ∀ {α β : Type} {f : Renderer MarkupWriter → α} {g : Renderer ρ → β},
      Follows watched (X o) (RenderM.renderer >>= fun r => pure (f r))
        (RenderM.renderer >>= fun r => pure (g r)) fun _ _ => X o :=
    .renderer fun _ _ => .pure fun _ _ hs => hs.2.2
  cases i with
  | kind => exact reads
  | openElement name key => cases hopens
  | closeElement => exact .bind (L.emit fun _ => rfl) fun _ _ => .pure fun _ _ hs => L.weaken hs
  | text value => exact .bind (L.text value) fun _ _ => .pure fun _ _ hs => L.weaken hs
  | pointer => exact .returning reads
  | current => exact .returning reads
  | parameter =>
    refine .context fun ctx ctx' hctx => ?_
    rw [hctx.parameter]
    exact .bind (L.text _) fun _ _ => .pure fun _ _ hs => L.weaken hs
  | injected =>
    refine .context fun ctx ctx' hctx => ?_
    rw [hctx.injected]
    exact .bind (L.text _) fun _ _ => .pure fun _ _ hs => L.weaken hs
  | maybeSkip told => exact hi.elim
  | pushKey fragment =>
    exact .bind (L.pushKey fragment) fun _ _ => .bind (L.saveKey _ _) fun _ _ => still
  | newKey fragment => exact reads
  | currentKey => exact reads
  | decodeCurrentKey => exact reads
  | decodeKey encoded =>
    simp only [Instruction.perform]
    split
    · exact .fail
    · exact still
  | toDefault => exact hi.elim
  | verifyLogOnly logOnly => exact hi.elim
  | evaluateLogging name arguments placeholder =>
    exact .returning (L.evaluateLogging name arguments placeholder)
  | logger => exact .returning reads
  | isTruthy value => exact still
  | requeue index => exact hi.elim
  | callText template escaper => exact withTemplateText template fun _ => still
  | templateKind kind => exact still
  | functionKind kind => exact still
  | inspect node => exact hi.elim
  | appendComment parent value => exact hi.elim
  | setInnerMarkup node markup => exact hi.elim
  | setComment node value => exact hi.elim
  | pushManualKey fragment => exact .bind (L.changeKeys _ _) fun _ _ => still
  | popManualKey => exact .bind (L.changeKeys _ _) fun _ _ => still
  | popKey previous? =>
    cases previous? with
    | some previous => exact .bind (L.changeKeys _ _) fun _ _ => still
    | none =>
      exact .bind L.takeSavedKey fun _ _ => .bind (L.changeKeys _ _) fun _ _ => still
  | setAttribute name value => exact after (L.setAttribute name value)
  | skip => exact after (L.called fun _ => rfl)
  | skipNode => exact after (L.called fun _ => rfl)
  | applyAttributes => exact after (L.called fun _ => rfl)
  | applyStatics attributes => exact after (L.called fun _ => rfl)
  | enter element logOnly => exact .bind (L.callLogger _) fun _ _ => still
  | exit => exact .bind (L.callLogger _) fun _ _ => still
  | setLogger logger => exact hi.elim
  | comment value => exact hi.elim
  | print value => exact .bind (L.print value) fun _ _ => still
  | printContent value => exact .bind (L.printContent value) fun _ _ => still
  | callHtml template => exact withTemplateText template fun text => after (L.text text)
  | callAttributes template filter =>
    exact withTemplateText template fun _ => .bind (L.setAttributes _) fun _ _ => still
  | callEscaped template escaper => exact withTemplateText template fun text => after (L.text text)
  | printAttributes sanitized markup filter =>
    exact .bind (L.setAttributes _) fun _ _ => still

theorem perform {i : Instruction} (hi : i.IsOrdinary) :
    Follows watched (X o) i.perform i.perform fun _ _ => X (o || i.opens) := by
  cases hopens : i.opens with
  | false =>
    rw [Bool.or_false]
    exact L.performStill hi hopens
  | true =>
    rw [Bool.or_true]
    cases i with
    | openElement name key => exact .returning (L.openElement name key)
    | _ => cases hopens

section Blocks

variable {body : Rendering}

omit L in
theorem performInPlace {b : Block} (hb : b.inPlace = true)
    {R : RenderState MarkupWriter → RenderState ρ → Prop}
    (hbody : Follows watched (X o) (body MarkupWriter) (body ρ) fun _ _ => R) :
    Follows watched (X o) (b.perform body) (b.perform body) fun _ _ => R := by
  have direct : ∀ {α β : Type} {a : α} {b : β},
      Follows watched (X o) (body MarkupWriter >>= fun _ => pure a) (body ρ >>= fun _ => pure b)
        fun _ _ => R := .returning hbody
  cases b with
  | print => exact direct
  | printContent => exact direct
  | functionCall kind => exact direct
  | callHtml kind parameter =>
    cases kind with
    | html => exact .returning (hbody.withParameter parameter)
    | attributes => cases hb
  | callAttributes kind parameter filter =>
    cases kind with
    | html => cases hb
    | attributes => exact .returning (hbody.withParameter parameter)
  | printAttributes kind filter =>
    cases kind with
    | html => cases hb
    | attributes => exact direct
  | _ => cases hb

omit L in
theorem perform_openServerElement {σ : Type} [RenderTarget σ] (name key : String)
    (parameters : Option Payload) :
    (Block.openServerElement name key parameters).perform (τ := σ) body =
      openServerElement name key parameters >>= fun renders =>
        RenderM.answer (.block (.openServerElement name key parameters)) (some (.flag renders)) >>=
          fun _ => (if renders then body σ else pure ()) >>= fun _ => pure none := by
  refine congrArg (openServerElement name key parameters >>= ·) (funext fun renders => ?_)
  cases renders <;> rfl

theorem performServed (name key : String) (parameters : Option Payload)
    (hbody : Follows watched (X true) (body MarkupWriter) (body ρ) fun _ _ => X true) :
    Follows watched (X o) (Block.perform (.openServerElement name key parameters) body)
      (Block.perform (.openServerElement name key parameters) body) fun _ _ => X true := by
  rw [perform_openServerElement, perform_openServerElement]
  refine .bind (L.serve name key parameters) fun renders renders' => .assuming fun hguards => ?_
  exact .bind (L.answer _ _ _) fun _ _ => .returning (hguards _ _ hbody)

theorem performCoerced {b : Block} (hb : b.IsOrdinary) (hplace : b.inPlace = false)
    (hserves : ∀ name key parameters, b ≠ .openServerElement name key parameters)
    (h : WritesAlike body) :
    Follows watched (X o) (b.perform body) (b.perform body) fun _ _ => X o := by
  have html : ∀ {template : Rendering}, WritesAlike template →
      Follows watched (X o) (htmlText (τ := MarkupWriter) template) (htmlText (τ := ρ) template)
        fun text text' s s' => text' = text ∧ X o s s' := L.renderedText .html
  have printed : ∀ text : String, Follows watched (X o)
      (do let _ ← RenderM.text (τ := MarkupWriter) text; return (none : Option Answer))
      (do let _ ← RenderM.text (τ := ρ) text; return (none : Option Answer)) fun _ _ => X o :=
    fun text => .bind (L.text text) fun _ _ => .pure fun _ _ hs => L.weaken hs
  have computed : ∀ (kind : RenderedKind) (parameter : Option String) (escaper : Option Filter),
      Follows watched (X o)
        (callText (τ := MarkupWriter) kind (fun σ _ => withParameter parameter (body σ)) escaper)
        (callText (τ := ρ) kind (fun σ _ => withParameter parameter (body σ)) escaper)
        fun text text' s s' => text' = text ∧ X o s s' := fun kind parameter escaper =>
    .bind_same (L.renderedText kind (h.withParameter parameter)) fun _ =>
      .pure fun _ _ hs => ⟨rfl, hs⟩
  have still : ∀ {α β : Type} {a : α} {b : β},
      Follows watched (X o) (pure a : RenderM MarkupWriter α) (pure b : RenderM ρ β)
        fun _ _ => X o := .pure fun _ _ hs => hs
  cases b with
  | openServerElement name key parameters => exact absurd rfl (hserves name key parameters)
  | coerce kind => exact .bind_same (L.renderedText kind h) fun _ => still
  | functionText kind => exact .bind_same (L.renderedText kind h) fun _ => still
  | callText kind parameter escaper => exact .bind_same (computed kind parameter escaper) fun _ => still
  | callEscaped kind parameter escaper => exact .bind_same (computed kind parameter _) printed
  | callHtml kind parameter =>
    cases kind with
    | html => cases hplace
    | attributes =>
      refine .bind (Q := fun _ _ => X o) ?_ fun _ _ => still
      exact .bind_same (L.renderedText .attributes (h.withParameter parameter)) fun text =>
        .bind (L.text text) fun _ _ => .pure fun _ _ hs => L.weaken hs
  | callAttributes kind parameter filter =>
    cases kind with
    | html =>
      exact .bind (.bind_same (html (h.withParameter parameter)) fun _ => L.setAttributes _)
        fun _ _ => still
    | attributes => cases hplace
  | printAttributes kind filter =>
    cases kind with
    | html => exact .bind (.bind_same (html h) fun _ => L.setAttributes _) fun _ _ => still
    | attributes => cases hplace
  | print => cases hplace
  | printContent => cases hplace
  | functionCall kind => cases hplace
  | attempt => exact hb.elim
  | probe => exact hb.elim
  | muted => exact hb.elim
  | shielded => exact hb.elim
  | isTruthy => exact hb.elim
  | functionTruth kind => exact hb.elim

theorem performBlock {b : Block} (hb : b.IsOrdinary) {body : Rendering} {opens : Bool}
    (halike : b.inPlace = false → WritesAlike body)
    (hbody : Follows watched (X (o || !b.inPlace)) (body MarkupWriter) (body ρ)
      fun _ _ => X (o || !b.inPlace || opens)) :
    Follows watched (X o) (b.perform body) (b.perform body)
      fun _ _ => X (o || b.opens opens) := by
  by_cases hserves : ∃ name key parameters, b = .openServerElement name key parameters
  · obtain ⟨name, key, parameters, rfl⟩ := hserves
    simp only [Block.inPlace, Bool.not_false, Bool.or_true, Bool.true_or] at hbody
    simp only [Block.opens, Bool.or_true]
    exact L.performServed name key parameters hbody
  · have hopens : b.opens opens = (b.inPlace && opens) := by
      cases b with
      | openServerElement name key parameters => exact absurd ⟨name, key, parameters, rfl⟩ hserves
      | _ => rfl
    rw [hopens]
    cases hplace : b.inPlace with
    | true =>
      simp only [hplace, Bool.not_true, Bool.or_false] at hbody
      exact performInPlace hplace hbody
    | false =>
      simp only [Bool.false_and, Bool.or_false]
      exact L.performCoerced hb hplace (fun name key parameters heq =>
        hserves ⟨name, key, parameters, heq⟩) (halike hplace)

end Blocks

end Lockstep

namespace Callback

theorem run_unlessSkipped {σ : Type} [RenderTarget σ] (skip : Bool) (body next : Callback) :
    (unlessSkipped skip body next).run σ =
      maybeSkip skip >>= fun skipped =>
        answer (.instruction (.maybeSkip skip)) (some (.flag skipped)) >>= fun _ =>
          (if !skipped then body.run σ else pure ()) >>= fun _ => next.run σ := by
  refine congrArg (maybeSkip skip >>= ·) (funext fun skipped => ?_)
  cases skipped <;> rfl

/-- An ordinary callback follows itself wherever renderers are in lockstep: from the default
renderer to another one, and from there on inside what it turns into text. -/
theorem follows {c : Callback} {o : Bool} (hc : c.IsOrdinary o) {ρ : Type} [RenderTarget ρ]
    {watched : Bool} {X : Bool → RenderState MarkupWriter → RenderState ρ → Prop}
    (L : Lockstep watched X) :
    Follows watched (X o) (c.run MarkupWriter) (c.run ρ) fun _ _ => X (o || c.opens) := by
  induction c generalizing o ρ watched X with
  | done =>
    simp only [opens, Bool.or_false]
    exact .pure fun _ _ hs => hs
  | step i next ih =>
    rw [opens, ← Bool.or_assoc]
    exact .bind (L.perform hc.1) fun _ _ => .bind (L.answer _ _ _) fun _ _ => ih hc.2 L
  | block b body next ihbody ihnext =>
    obtain ⟨hb, hbody, hnext⟩ := hc
    have halike : b.inPlace = false → WritesAlike fun ρ _ => body.run ρ := by
      intro hplace called
      exact ihbody hbody (Writing.lockstep called)
    rw [opens, ← Bool.or_assoc]
    exact .bind (L.performBlock hb halike (ihbody hbody L)) fun _ _ =>
      .bind (L.answer _ _ _) fun _ _ => ihnext hnext L
  | unlessSkipped skip body next ihbody ihnext =>
    obtain ⟨rfl, hbody, hnext⟩ := hc
    rw [run_unlessSkipped, run_unlessSkipped]
    refine .bind (L.skip skip) fun skipped skipped' => .assuming fun hguards => ?_
    exact .bind (L.answer _ _ _) fun _ _ => .bind (hguards _ _ (ihbody hbody L)) fun _ _ =>
      ihnext hnext L

end Callback

end KeyedRender

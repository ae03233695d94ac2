import KeyedRender.Document.Lemmas
import KeyedRender.Proofs.Script.Path

/-!
# Scripts on a path

Whatever a script calls and wherever it fails, its run is on every path. The proof is an
induction on the script, for all targets at once, since content that is turned into text is
rendered on a target of its own.
-/
namespace KeyedRender

namespace Traces

open RenderM

variable {τ : Type} [RenderTarget τ] {w : Bool}
  {R : List (Moment τ) → RenderState τ → RenderState τ → Prop}

omit [RenderTarget τ] in
theorem synchronizeAll (hC : Course R)
    (hstep : ∀ id, Traces w R (do
      RenderM.changeRegistry (·.update id Component.synchronize)
      RenderM.log (.synchronized id)) .none)
    (ids : List ComponentId) : Traces w R (RenderM.synchronizeAll ids) .none := by
  induction ids with
  | nil => exact .pure hC _
  | cons id rest ih =>
    have hrest := Traces.before hC (hstep id) fun _ => ih
    rw [bind_assoc] at hrest
    refine .context hC fun ctx => ?_
    split
    · exact .before hC (.breakWith _) fun _ => hrest
    · exact hrest

omit [RenderTarget τ] in
theorem flushQueue (hC : Course R)
    (hclear : Traces w R (changeRenderer Renderer.clearQueue) .none)
    (hstep : ∀ id, Traces w R (do
      RenderM.changeRegistry (·.update id Component.synchronize)
      RenderM.log (.synchronized id)) .none) : Traces w R RenderM.flushQueue .none :=
  .renderer hC fun _ => .before hC hclear fun _ => synchronizeAll hC hstep _

theorem emit (hC : Course R) {call : TargetCall} (hcall : Traces w R (callTarget call) .none)
    (hmark : Traces w R (changeRenderer Renderer.markRendered) .none) :
    Traces w R (RenderM.emit call) .none := by
  refine .before hC (.renderer hC fun r => ?_) fun _ => .pure hC _
  split
  · exact hcall
  · exact .pure hC _
  · exact .before hC hmark fun _ => .pure hC _

theorem openServerElement (hC : Course R)
    (hcall : ∀ call : TargetCall, call.IsStep → Traces w R (callTarget call) .none)
    (hmark : Traces w R (changeRenderer Renderer.markRendered) .none)
    (hrecord : ∀ node text,
      Traces w R (changeRecord node fun r => { r with skipParameters := some text }) .none)
    (name key : String) (parameters : Option Payload) :
    Traces w R (RenderM.openServerElement name key parameters) .none := by
  have hread : ∀ {α β : Type} (read : τ → Except Fault α) {next : α → RenderM τ β},
      (∀ a, Traces w R (next a) .none) → Traces w R (readTarget read >>= next) .none := by
    intro α β read next hnext
    refine .before hC (.renderer hC fun r => ?_) hnext
    split
    · exact .pure hC _
    · exact .breakWith _
  have hemit : ∀ call : TargetCall, call.IsStep → Traces w R (RenderM.emit call) .none :=
    fun call hc => .emit hC (hcall call hc) hmark
  have hverify : ∀ node supplied, Traces w R (verifySkipParameters node supplied) .none := by
    intro node supplied
    refine .reading hC (fun _ _ => rfl) fun d => ?_
    split
    · exact .pure hC _
    · split
      · exact hrecord _ _
      · split
        · exact hread _ fun _ => .fail hC _
        · exact .pure hC _
  have hclose : Traces w R (do
      RenderM.emit .skip
      RenderM.emit .closeElement
      return false) .none :=
    .before hC (hemit _ trivial) fun _ => .before hC (hemit _ trivial) fun _ => .pure hC _
  refine .renderer hC fun r => ?_
  split
  · exact .pure hC _
  · exact .before hC hmark fun _ => .pure hC _
  · refine .before hC (hcall _ trivial) fun opened => .before hC ?_ fun _ => ?_
    · refine .context hC fun ctx => ?_
      split
      · exact .before hC (hemit _ ⟨by decide, by decide⟩) fun _ => .pure hC _
      · exact .pure hC _
    · cases opened with
      | none => exact .pure hC _
      | some node =>
        refine hread _ fun hasContent => ?_
        cases hasContent with
        | false => exact .pure hC _
        | true =>
          cases parameters.filter Payload.isSupplied with
          | none => exact hclose
          | some supplied => exact .before hC (hverify node supplied) fun _ => hclose

end Traces

def Side.course {τ : Type} (side : Shared → Shared → Prop) :
    List (Moment τ) → RenderState τ → RenderState τ → Prop := fun _ s t => side s.shared t.shared

namespace Side

open RenderM

variable {τ : Type} {side : Shared → Shared → Prop} (hS : Side side)
include hS

theorem isCourse : Course (Side.course (τ := τ) side) := ⟨fun _ => hS.refl _, hS.trans⟩

theorem changeRenderer (change : Renderer τ → Renderer τ) :
    Traces false (Side.course side) (RenderM.changeRenderer change) .none := by
  intro ctx s t _ ht
  obtain rfl := Outcome.EndsIn.done_iff.1 ht
  exact hS.refl _

theorem flushQueue : Traces false (Side.course (τ := τ) side) RenderM.flushQueue .none := by
  refine .flushQueue hS.isCourse (hS.changeRenderer _) fun id ctx s t _ ht => ?_
  obtain rfl := Outcome.EndsIn.done_iff.1 ht
  exact hS.synchronize s.shared id

section Target

variable [RenderTarget τ]

theorem callTarget (call : TargetCall) :
    Traces false (Side.course (τ := τ) side) (RenderM.callTarget call) .none := by
  intro ctx s t hw ht
  obtain ⟨node, ht⟩ := callTarget_of_endsIn ht
  unfold RenderM.callTarget at ht
  split at ht
  · cases ht
  · cases ht
    rw [if_neg (by rw [hw]; decide)]
    exact hS.refl _

theorem openServerElement (name key : String) (parameters : Option Payload) :
    Traces false (Side.course (τ := τ) side) (RenderM.openServerElement name key parameters)
      .none :=
  .openServerElement hS.isCourse (fun call _ => hS.callTarget call) (hS.changeRenderer _)
    (fun _ _ => hS.changeRenderer _) name key parameters

theorem requeue (index : Nat) :
    Traces false (Side.course (τ := τ) side) (RenderM.requeue index) .none := by
  have hC := hS.isCourse (τ := τ)
  refine .state hC fun s => ?_
  split
  · exact .pure hC _
  · refine .before hC (.context hC fun _ => .renderer hC fun _ => .pure hC _) fun ids => ?_
    split
    · exact .before hC (hS.changeRenderer _) fun _ => .pure hC _
    · exact .pure hC _

omit [RenderTarget τ] in
theorem toDefault : Traces false (Side.course (τ := τ) side) RenderM.toDefault .none := by
  have hC := hS.isCourse (τ := τ)
  refine .renderer hC fun r => ?_
  split
  · exact .fail hC _
  · exact hS.changeRenderer _
  · exact .pure hC _

theorem patch {root : NodeId} {mode : PatchMode} {rule : Key.MatchRule} {logger : Option LoggerId}
    {template : RenderM τ Unit} (h : Traces false (Side.course side) template .none) :
    Traces false (Side.course side) (RenderM.patch root mode rule logger template) .none := by
  have hC := hS.isCourse (τ := τ)
  refine .before hC ?_ fun _ => hS.flushQueue
  refine .before hC (hS.callTarget _) fun _ => .before hC (hS.changeRenderer _) fun _ => ?_
  exact .before hC (.attempt h) fun result =>
    .before hC (hS.callTarget _) fun _ => .resume hC result

end Target

end Side

theorem RenderM.detour_of_endsIn {τ σ α : Type} [RenderTarget τ] {start : Renderer σ}
    {m : RenderM σ α} {ctx : Context} {s t : RenderState τ}
    (h : (RenderM.detour start m ctx s).EndsIn t) : ∃ (inside : Context) (u : RenderState σ),
      inside.watched = false ∧ (m inside ⟨start, s.shared⟩).EndsIn u ∧
        t = { s with shared := u.shared } := by
  unfold RenderM.detour at h
  dsimp only at h
  refine ⟨{ ctx with watched := false, pinned := s.renderer.held ++ ctx.pinned }, ?_⟩
  split at h
  · next a u ho => exact ⟨u, rfl, .inl ⟨a, ho⟩, (Outcome.EndsIn.done_iff.1 h).symm⟩
  · next e u ho => exact ⟨u, rfl, .inr ⟨e, ho⟩, (Outcome.EndsIn.failed_iff.1 h).symm⟩
  · exact absurd h Outcome.EndsIn.not_broken

theorem MarkupWriter.findComponent?_none (type : ComponentType) (key : String) (ctx : Context)
    (s : RenderState MarkupWriter) : RenderM.findComponent? type key ctx s = .done none s := by
  simp only [RenderM.findComponent?, RenderM.bind_run, RenderM.state]
  cases s.renderer.target? with
  | none => rfl
  | some w =>
    change Outcome.done (RenderM.findAttached? w.document s.shared.registry type key
      (w.document.siblingsFrom none)) s = _
    rw [Document.siblingsFrom_none]
    rfl

theorem Side.trail {side : Shared → Shared → Prop} (hS : Side side) :
    Trail (τ := MarkupWriter) side false (Side.course side) where
  refl := hS.isCourse.refl
  append := hS.isCourse.append
  plain _ _ := hS.refl _
  aside h := h
  keys _ _ := hS.refl _
  logger _ _ := hS.refl _
  marked _ := hS.refl _
  popped _ h := h
  call hw _ h := hS.callTarget _ _ _ _ hw (.inl ⟨_, h⟩)
  blob _ _ _ := hS.refl _
  server name key parameters hw _ h := hS.openServerElement name key parameters _ _ _ hw h
  skippedServer _ _ _ _ := hS.refl _
  toDefault hw h := Traces.returning hS.isCourse hS.toDefault _ _ _ hw h
  requeue index hw h := Traces.returning hS.isCourse (hS.requeue index) _ _ _ hw h
  probed _ _ := hS.refl _
  component {spec ctx s id u ms v} hw _ hbegin hv := by
    obtain ⟨rfl, c, rfl⟩ :=
      RenderM.beginComponent_new (MarkupWriter.findComponent?_none _ _ ctx s) hbegin
    obtain ⟨hrendered, hplaced⟩ := hS.created hv
    refine ⟨hrendered, fun {root t} ht => ?_⟩
    rcases RenderM.attach_of_endsIn (.inl ⟨_, ht⟩) with rfl | ⟨-, c', -, rfl⟩
    · exact hrendered
    · unfold attachedRegistry
      by_cases hroot : ((RenderM.detach (RenderTarget.document v.renderer.pass.target)
          s.shared.registry.components.size c'.node root).record? root).isSome
      · simp only [if_pos hroot]
        exact hplaced root
      · simp only [if_neg hroot]
        exact hrendered

theorem RenderM.layered_of_endsIn {τ α : Type} {layer : Layer} {m : RenderM τ α} {ctx : Context}
    {s t : RenderState τ} (h : (RenderM.layered layer m ctx s).EndsIn t) : ∃ u,
      (m ctx (s.push layer)).EndsIn u ∧ t = { u with renderer := u.renderer.pop } := by
  simp only [RenderM.layered, bind_run, RenderM.changeRenderer, RenderM.attempt, RenderM.renderer,
    pure_run] at h
  change ∃ u, (m ctx { s with renderer := s.renderer.push layer }).EndsIn u ∧ _
  cases ho : m ctx { s with renderer := s.renderer.push layer } with
  | done a u =>
    rw [ho] at h
    exact ⟨u, .inl ⟨a, rfl⟩, (Outcome.EndsIn.done_iff.1 h).symm⟩
  | failed e u =>
    rw [ho] at h
    exact ⟨u, .inr ⟨e, rfl⟩, (Outcome.EndsIn.done_iff.1 h).symm⟩
  | broken f =>
    rw [ho] at h
    exact absurd h Outcome.EndsIn.not_broken

theorem RenderM.shielded_of_endsIn {τ α : Type} {m : RenderM τ α} {ctx : Context}
    {s t : RenderState τ} (h : (RenderM.shielded m ctx s).EndsIn t) : ∃ u,
      (m ctx s.muted).EndsIn u ∧ t = { u with renderer := u.renderer.pop } := by
  change ((RenderM.layered (.muted .empty s.renderer.logger?) m >>= fun result =>
    RenderM.resume result.1) ctx s).EndsIn t at h
  rcases Outcome.EndsIn.bind_iff.1 h with ⟨e, he⟩ | ⟨⟨result, rendered⟩, u, hu, h⟩
  · exact layered_of_endsIn (.inr ⟨e, he⟩)
  · obtain rfl : u = t := by
      cases result with
      | ok a => exact Outcome.EndsIn.done_iff.1 h
      | error e => exact Outcome.EndsIn.failed_iff.1 h
    exact layered_of_endsIn (.inl ⟨_, hu⟩)

def Aside (side : Shared → Shared → Prop) (template : Rendering) : Prop :=
  Traces false (Side.course side) (template MarkupWriter) .none

theorem Aside.withParameter {side : Shared → Shared → Prop} {template : Rendering}
    (h : Aside side template) (parameter : Option String) :
    Aside side fun σ _ => RenderM.withParameter parameter (template σ) :=
  .withContext h _ fun _ => rfl

def Coerces (side : Shared → Shared → Prop) (template : Rendering) : Prop :=
  ∀ (τ : Type) [RenderTarget τ] (kind : RenderedKind) (parameter : Option String) (ctx : Context)
    (s t : RenderState τ),
    (RenderM.renderedText kind (fun σ _ => RenderM.withParameter parameter (template σ))
      ctx s).EndsIn t → side s.shared t.shared

section Coercions

open RenderM

variable {τ : Type} [RenderTarget τ] {ctx : Context} {s t : RenderState τ}

def enclosed (kind : RenderedKind) (template : Rendering) : Rendering := fun σ =>
  match kind with
  | .html => template σ
  | .attributes => do
    let _ ← openElement "div" ""
    template σ
    emit .applyAttributes
    emit .closeElement

def writtenText (kind : RenderedKind) (w : MarkupWriter) : String :=
  match kind with
  | .html => w.document.innerMarkup MarkupWriter.root
  | .attributes =>
    match (w.document.children MarkupWriter.root).head? with
    | some element => attributesLine (w.document.attributes element)
    | none => ""

theorem renderedText_eq (kind : RenderedKind) (template : Rendering) :
    renderedText (τ := τ) kind template =
      (write (enclosed kind template) >>= fun w => pure (writtenText kind w)) := by
  cases kind with
  | html => rfl
  | attributes =>
    refine congrArg (write _ >>= ·) (funext fun w => ?_)
    cases hhead : (w.document.children MarkupWriter.root).head? <;> simp only [writtenText, hhead]

theorem renderedText_of_endsIn {kind : RenderedKind} {template : Rendering}
    (h : (renderedText kind template ctx s).EndsIn t) :
    ∃ (inside : Context) (u : RenderState MarkupWriter), inside.watched = false ∧
      (patch MarkupWriter.root .inner .keyed s.renderer.logger? (enclosed kind template MarkupWriter)
        inside ⟨.start .new, s.shared⟩).EndsIn u ∧ t = { s with shared := u.shared } := by
  rw [renderedText_eq, Outcome.EndsIn.returning_iff] at h
  obtain ⟨e, he⟩ | ⟨logger, _, hr, h⟩ := Outcome.EndsIn.bind_iff.1 h
  · cases he
  cases hr
  exact detour_of_endsIn (Outcome.EndsIn.returning_iff.1 h)

theorem Aside.coerces {side : Shared → Shared → Prop} (hS : Side side) {template : Rendering}
    (ht : Aside side template) : Coerces side template := by
  intro τ _ kind parameter ctx s t h
  have hM := hS.trail.path
  have hC := hM.toCourse
  obtain ⟨inside, u, hinside, hu, rfl⟩ := renderedText_of_endsIn h
  refine hS.patch ?_ inside _ u hinside hu
  cases kind with
  | html => exact ht.withParameter parameter
  | attributes =>
    exact .before hC (hM.openElement _ _) fun _ =>
      .before hC (ht.withParameter parameter) fun _ =>
        .before hC (hM.emit _ trivial) fun _ => hM.emit _ trivial

end Coercions

namespace Path

open RenderM

variable {τ : Type} [RenderTarget τ] {side : Shared → Shared → Prop} {w : Bool}
  {R : List (Moment τ) → RenderState τ → RenderState τ → Prop} (h : Path side w R)
  (hR : Reporting side)
include h hR

omit hR in
theorem renderedText (kind : RenderedKind) (parameter : Option String) {template : Rendering}
    (hc : Coerces side template) :
    Traces w R (RenderM.renderedText kind fun σ _ => withParameter parameter (template σ)) .none := by
  intro ctx s t _ ht
  have hside := hc τ kind parameter ctx s t ht
  obtain ⟨inside, u, -, -, rfl⟩ := renderedText_of_endsIn ht
  exact h.aside hside

section Blocks

variable {m : RenderM τ Unit} {ms : Moments τ}

omit hR in
theorem layered (layer : Layer) (hm : Traces w R m ms) :
    Traces w R (RenderM.layered layer m) (ms.under layer) := by
  intro ctx s t hw ht
  obtain ⟨u, hu, rfl⟩ := layered_of_endsIn ht
  exact h.popped layer (hm ctx _ u hw hu)

omit hR in
theorem shielded (hm : Traces w R m ms) : Traces w R (RenderM.shielded m) ms.shielded := by
  intro ctx s t hw ht
  obtain ⟨u, hu, rfl⟩ := shielded_of_endsIn ht
  exact h.popped _ (hm ctx _ u hw hu)

omit hR in
theorem muted (hm : Traces w R m ms) : Traces w R (RenderM.muted m) ms.muted := by
  intro ctx s t hw ht
  cases hkind : s.renderer.kind with
  | default =>
    simp only [RenderM.muted, bind_run, RenderM.renderer, hkind] at ht
    simp only [Moments.muted, hkind]
    exact h.shielded hm ctx s t hw ht
  | muted =>
    simp only [RenderM.muted, bind_run, RenderM.renderer, hkind] at ht
    simp only [Moments.muted, hkind]
    exact Traces.fail h.toCourse _ ctx s t hw ht
  | probe =>
    simp only [RenderM.muted, bind_run, RenderM.renderer, hkind] at ht
    simp only [Moments.muted, hkind]
    exact hm ctx s t hw ht

omit hR in
theorem probe (hm : Traces w R m ms) :
    Traces w R (RenderM.probe m) (ms.under (.probe false)) :=
  .before h.toCourse (h.layered _ hm) fun result =>
    .before h.toCourse (.resume h.toCourse result.1) fun _ => .pure h.toCourse _

omit hR in
theorem openServerElement (name key : String) (parameters : Option Payload) :
    Traces w R (RenderM.openServerElement name key parameters)
      fun ctx s => [⟨.block (.openServerElement name key parameters), ctx, s⟩] := by
  intro ctx s t hw ht
  have skipped : s.renderer.layers ≠ [] →
      R [⟨.block (.openServerElement name key parameters), ctx, s⟩] s s :=
    h.skippedServer name key parameters
  cases hkind : s.renderer.kind with
  | default => exact h.server name key parameters hw (layers_of_kind_eq_default hkind) ht
  | muted =>
    simp only [RenderM.openServerElement, bind_run, RenderM.renderer, hkind] at ht
    obtain rfl := Outcome.EndsIn.done_iff.1 ht
    exact skipped (by rintro hs; simp [Renderer.kind, hs] at hkind)
  | probe =>
    simp only [RenderM.openServerElement, bind_run, RenderM.renderer, hkind] at ht
    obtain rfl := Outcome.EndsIn.done_iff.1 ht
    exact h.append (skipped (by rintro hs; simp [Renderer.kind, hs] at hkind)) (h.marked s)

theorem serverBlock (name key : String) (parameters : Option Payload) {body : Rendering}
    (hbody : Traces w R (body τ) ms) :
    Traces w R (Block.perform (.openServerElement name key parameters) body) fun ctx s =>
      ⟨.block (.openServerElement name key parameters), ctx, s⟩ ::
        Block.moments (.openServerElement name key parameters) ms ctx s := by
  refine .bind h.toCourse (h.openServerElement name key parameters) fun renders => ?_
  refine .after h.toCourse (h.answer hR _ _) fun _ => ?_
  cases renders with
  | true => exact .returning h.toCourse hbody
  | false => exact .pure h.toCourse _

variable {body : Rendering} (hc : Coerces side body) (hbody : Traces w R (body τ) ms)
include hc hbody

omit hR in
theorem performInside {b : Block}
    (hserver : ∀ name key parameters, b ≠ .openServerElement name key parameters) :
    Traces w R (b.perform body) (b.moments ms) := by
  have hC := h.toCourse
  have probed : Traces w R (RenderM.probe (body τ)) (ms.under (.probe false)) := h.probe hbody
  have parametrized : ∀ parameter, Traces w R (RenderM.withParameter parameter (body τ))
      (ms.within fun ctx => { ctx with parameter := parameter.getD ctx.parameter }) :=
    fun parameter => .withContext hbody _ fun _ => rfl
  cases b with
  | openServerElement name key parameters => exact absurd rfl (hserver name key parameters)
  | attempt =>
    refine .before hC (.attempt hbody) fun result => ?_
    cases result <;> exact .pure hC _
  | probe => exact .returning hC probed
  | coerce kind => exact .returning hC (h.renderedText kind none hc)
  | muted => exact .returning hC (h.muted hbody)
  | shielded => exact .returning hC (h.shielded hbody)
  | isTruthy => exact .returning hC probed
  | print => exact .returning hC hbody
  | printContent => exact .returning hC hbody
  | callHtml kind parameter =>
    cases kind with
    | html => exact .returning hC (parametrized parameter)
    | attributes =>
      exact .returning hC (.before hC (h.renderedText .attributes parameter hc)
        fun _ => .returning hC (h.text _))
  | callAttributes kind parameter filter =>
    cases kind with
    | attributes => exact .returning hC (parametrized parameter)
    | html =>
      exact .returning hC (.before hC (h.renderedText .html parameter hc)
        fun _ => h.setAttributes _)
  | callText kind parameter escaper =>
    exact .returning hC (.returning hC (h.renderedText kind parameter hc))
  | callEscaped kind parameter escaper =>
    exact .before hC (.returning hC (h.renderedText kind parameter hc)) fun _ =>
      .returning hC (h.text _)
  | functionText kind => exact .returning hC (h.renderedText kind none hc)
  | functionTruth kind => exact .returning hC probed
  | functionCall kind => exact .returning hC hbody
  | printAttributes kind filter =>
    cases kind with
    | attributes => exact .returning hC hbody
    | html =>
      exact .returning hC (.before hC (h.renderedText .html none hc) fun _ => h.setAttributes _)

theorem stepBlock (b : Block) :
    Traces w R (RenderM.stepBlock b body) fun ctx s => ⟨.block b, ctx, s⟩ :: b.moments ms ctx s := by
  refine .before h.toCourse ?_ fun _ => h.answer hR _ _
  by_cases hserver : ∃ name key parameters, b = .openServerElement name key parameters
  · obtain ⟨name, key, parameters, rfl⟩ := hserver
    exact h.serverBlock hR name key parameters hbody
  · have hstill : Question.IsStill (.block b) := by
      cases b with
      | openServerElement name key parameters => exact absurd ⟨_, _, _, rfl⟩ hserver
      | _ => trivial
    have hin := h.performInside hc hbody fun name key parameters hb =>
      hserver ⟨name, key, parameters, hb⟩
    exact fun ctx s t hw ht => h.append (h.still ⟨.block b, ctx, s⟩ hstill) (hin ctx s t hw ht)

end Blocks

section Components

variable (spec : ComponentSpec) {before body : RenderM τ Unit} {mb ms : Moments τ}
  (hbefore : Traces w R before mb) (hbody : Traces w R body ms)
include hbefore hbody

omit hR in
theorem renderRoot : Traces w R (RenderM.renderRoot spec before body) fun ctx s =>
    mb ctx s ++ Moments.after before (fun _ => spec.rootMoments ms) ctx s := by
  have hC := h.toCourse
  refine .bind hC hbefore fun _ => ?_
  have element : ∀ f : Option NodeId → Option NodeId, Traces w R (do
      let root ← RenderM.openElement spec.name spec.key
      body
      RenderM.emit .closeElement
      return f root) (.after (RenderM.openElement spec.name spec.key) fun _ => ms) := fun f =>
    .after hC (h.openElement _ _) fun root =>
      .before hC hbody fun _ => .returning hC (h.emit _ trivial)
  unfold ComponentSpec.rootMoments
  cases spec.root with
  | text => exact h.text _
  | bare node => exact .pure hC node
  | opened => exact element id
  | none => exact element fun _ => none
  | given node => exact element fun _ => some node

omit hR in
theorem renderComponent :
    Traces w R (RenderM.renderComponent spec before body) fun ctx s =>
      ⟨.component spec, ctx, s⟩ :: spec.moments before mb ms ctx s := by
  intro ctx s t hw ht
  rw [renderComponent_eq] at ht
  obtain ⟨e, he⟩ | ⟨_, _, hr, ht⟩ := Outcome.EndsIn.bind_iff.1 ht
  · cases he
  cases hr
  by_cases hkind : s.renderer.kind = .probe
  · rw [if_pos hkind] at ht
    obtain rfl := Outcome.EndsIn.done_iff.1 ht
    simp only [ComponentSpec.moments, if_pos hkind]
    exact h.append (h.probed spec hkind) (h.marked s)
  rw [if_neg hkind] at ht
  obtain ⟨e, he⟩ | ⟨id, u, hbegin, ht⟩ := Outcome.EndsIn.bind_iff.1 ht
  · exact absurd he beginComponent_ne_failed
  have hroot := (h.renderRoot spec hbefore hbody).withContext
    (fun ctx => { ctx with rendering := id :: ctx.rendering }) fun _ => rfl
  simp only [ComponentSpec.moments, if_neg hkind, Moments.after, hbegin]
  obtain ⟨e, he⟩ | ⟨root, v, hv, ht⟩ := Outcome.EndsIn.bind_iff.1 ht
  · exact (h.component hw hkind hbegin (hroot ctx u t hw (.inr ⟨e, he⟩))).1
  have hinside := h.component hw hkind hbegin (hroot ctx u v hw (.inl ⟨root, hv⟩))
  cases root with
  | none =>
    obtain rfl := Outcome.EndsIn.done_iff.1 ht
    exact hinside.1
  | some node =>
    obtain ⟨e, he⟩ | ⟨_, x, hattach, ht⟩ := Outcome.EndsIn.bind_iff.1 ht
    · exact absurd he attach_ne_failed
    obtain rfl := Outcome.EndsIn.done_iff.1 ht
    exact hinside.2 hattach

theorem stepComponent (hknown : ∀ {ctx s id t},
      RenderM.renderComponent spec before body ctx s = .done (some id) t →
        id < t.shared.registry.components.size) :
    Traces w R (RenderM.stepComponent spec before body) fun ctx s =>
      ⟨.component spec, ctx, s⟩ :: spec.moments before mb ms ctx s := by
  have hC := h.toCourse
  intro ctx s t hw ht
  have hrendered := h.renderComponent spec hbefore hbody
  obtain ⟨e, he⟩ | ⟨id?, u, hu, ht⟩ := Outcome.EndsIn.bind_iff.1 ht
  · exact hrendered ctx s t hw (.inr ⟨e, he⟩)
  have hrest : R [] u t := by
    cases id? with
    | none => exact Traces.before hC (.pure hC _) (fun _ => h.answer hR _ _) ctx u t hw ht
    | some id =>
      obtain ⟨e, he⟩ | ⟨report, v, hv, ht⟩ := Outcome.EndsIn.bind_iff.1 ht
      · cases he
      · exact h.append (h.introduce hR (hknown hu) (.inl ⟨report, hv⟩))
          (h.answer hR _ _ ctx v t hw ht)
  simpa using h.append (hrendered ctx s u hw (.inl ⟨id?, hu⟩)) hrest

end Components

end Path

theorem Script.traces_of_coerces {side : Shared → Shared → Prop} (hR : Reporting side)
    (hc : ∀ body : Script,
      (∀ {R : List (Moment MarkupWriter) → RenderState MarkupWriter → RenderState MarkupWriter → Prop},
        Path side false R → Traces false R (body.run MarkupWriter) body.moments) →
      Coerces side fun σ _ => body.run σ) (script : Script) :
    ∀ {τ : Type} [RenderTarget τ] {w : Bool}
      {R : List (Moment τ) → RenderState τ → RenderState τ → Prop},
      Path side w R → Traces w R (script.run τ) script.moments := by
  induction script with
  | done => exact fun h => .pure h.toCourse ()
  | step i next ih =>
    intro τ _ w R h
    rw [run_step]
    have hstep : Traces w R (RenderM.stepInstruction i) fun ctx s => [⟨.instruction i, ctx, s⟩] :=
      .before h.toCourse (h.perform hR i) fun _ => h.answer hR _ _
    exact .bind h.toCourse hstep fun _ => ih h
  | block b body next ihbody ih =>
    intro τ _ w R h
    rw [run_block]
    have hstep := h.stepBlock hR (hc body ihbody) (ihbody h) b
    exact .bind h.toCourse hstep fun _ => ih h
  | component spec before body next ihbefore ihbody ih =>
    intro τ _ w R h
    rw [run_component]
    have hstep := h.stepComponent hR spec (ihbefore h) (ihbody h) RenderM.lt_size_of_renderComponent
    exact .bind h.toCourse hstep fun _ => ih h

/-- The run of a script is on every path. What its blocks render on a target of its own keeps to
the side. -/
theorem Script.traces {side : Shared → Shared → Prop} (hS : Side side) (script : Script) :
    ∀ {τ : Type} [RenderTarget τ] {w : Bool}
      {R : List (Moment τ) → RenderState τ → RenderState τ → Prop},
      Path side w R → Traces w R (script.run τ) script.moments := by
  refine script.traces_of_coerces hS.reporting fun body hbody => ?_
  have haside : Aside side fun σ _ => body.run σ := hbody hS.trail.path
  exact Aside.coerces hS haside

end KeyedRender

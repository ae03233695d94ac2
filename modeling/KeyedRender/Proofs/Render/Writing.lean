import KeyedRender.Proofs.Render.Follows

/-!
# Two passes on the same markup

Two passes without a logger that write the same markup go the same way, whatever keys they carry
and whatever happened before they began. So content that is turned into text is the same text.
-/
namespace KeyedRender

/-- The markup written so far is the same. Whether the first pass has seen a watched call does not
change while it is not watched itself. -/
structure Writing (called : Prop) (s s' : RenderState MarkupWriter) : Prop where
  target : s'.renderer.pass.target = s.renderer.pass.target
  layers : s.renderer.layers = [] ∧ s'.renderer.layers = []
  logger : s.renderer.pass.logger = none ∧ s'.renderer.pass.logger = none
  queue : s.renderer.pass.queue = [] ∧ s'.renderer.pass.queue = []
  called : s.shared.Called ↔ called

theorem Renderer.kind_of_layers {τ : Type} {r : Renderer τ} (h : r.layers = []) :
    r.kind = .default := by
  simp only [kind, h]

namespace Writing

open RenderM

variable {called : Prop} {α β : Type} {call call' : TargetCall}

theorem renderer {m : Renderer MarkupWriter → RenderM MarkupWriter α}
    {m' : Renderer MarkupWriter → RenderM MarkupWriter β}
    {Q : α → β → RenderState MarkupWriter → RenderState MarkupWriter → Prop}
    (h : ∀ r r', r'.pass.target = r.pass.target → r.layers = [] → r'.layers = [] →
      Follows false (Writing called) (m r) (m' r') Q) :
    Follows false (Writing called) (RenderM.renderer >>= m) (RenderM.renderer >>= m') Q := by
  refine .renderer fun r r' => ?_
  rintro ctx ctx' s s' a t hctx ⟨rfl, rfl, hs⟩ hdone
  exact h _ _ hs.target hs.layers.1 hs.layers.2 ctx ctx' s s' a t hctx hs hdone

theorem callTarget (hcall : ∀ w : MarkupWriter, w.step call = w.step call') :
    Follows false (Writing called) (callTarget call) (callTarget call') fun node node' s s' =>
      node' = node ∧ Writing called s s' := by
  intro ctx ctx' s s' a t hctx hs hdone
  have hstep : RenderTarget.apply call' s'.renderer.pass.target =
      .ok (s.renderer.pass.target.step call) := by
    rw [hs.target, hcall]
    rfl
  obtain ⟨log, hlog⟩ := callTarget_run ctx' hstep
  refine ⟨_, _, hlog, ?_⟩
  have hrun : RenderM.callTarget call ctx s = .done (s.renderer.pass.target.step call).1
      ⟨s.renderer.setTarget (s.renderer.pass.target.step call).2,
        { s.shared with log := if ctx.watched then s.shared.log.push (.target call)
          else s.shared.log }⟩ := rfl
  rw [hrun, hctx.watched] at hdone
  cases hdone
  exact ⟨rfl, rfl, hs.layers, hs.logger, hs.queue, hs.called⟩

theorem emit? (hcall : ∀ w : MarkupWriter, w.step call = w.step call') :
    Follows false (Writing called) (emit? call) (emit? call') fun node node' s s' =>
      node' = node ∧ Writing called s s' := by
  refine renderer fun r r' _ hr hr' => ?_
  rw [Renderer.kind_of_layers hr, Renderer.kind_of_layers hr']
  exact callTarget hcall

theorem emit (call : TargetCall) :
    Follows false (Writing called) (emit call) (emit call) fun _ _ => Writing called :=
  .bind_same (emit? fun _ => rfl) fun _ => .pure fun _ _ hs => hs

theorem openElement (name key : String) :
    Follows false (Writing called) (openElement name key) (openElement name key)
      fun node node' s s' => node' = node ∧ Writing called s s' :=
  renderer fun _ _ _ _ _ => emit? fun _ => rfl

theorem setAttribute (name value : String) :
    Follows false (Writing called) (setAttribute name value) (setAttribute name value)
      fun _ _ => Writing called :=
  .bind (emit _) fun _ _ => .ite (emit _) (.ite (emit _) (.pure fun _ _ hs => hs))

theorem stampKey (key : String) :
    Follows false (Writing called) (stampKey key) (stampKey key) fun _ _ => Writing called :=
  .context fun _ _ hctx => by
    rw [hctx.stampsKeys]
    exact .ite (setAttribute _ _) (.pure fun _ _ hs => hs)

theorem targetDocument :
    Follows false (Writing called) (targetDocument (τ := MarkupWriter)) targetDocument
      fun document document' s s' => document' = document ∧ Writing called s s' :=
  renderer fun r r' heq _ _ => by
    rw [heq]
    exact .pure fun _ _ hs => ⟨rfl, hs⟩

theorem readTarget (read : MarkupWriter → Except Fault α) :
    Follows false (Writing called) (readTarget read) (readTarget read)
      fun a a' s s' => a' = a ∧ Writing called s s' := by
  refine renderer fun r r' heq _ _ => ?_
  rw [heq]
  cases read r.pass.target with
  | ok a => exact .pure fun _ _ hs => ⟨rfl, hs⟩
  | error f => exact fun _ _ _ _ _ _ _ _ hdone => nomatch hdone

theorem changeRecord (node : NodeId) (change : NodeRecord → NodeRecord) :
    Follows false (Writing called) (changeRecord node change) (changeRecord node change)
      fun _ _ => Writing called := by
  intro ctx ctx' s s' a t _ hs hdone
  cases hdone
  refine ⟨(), _, rfl, ?_, hs.layers, hs.logger, hs.queue, hs.called⟩
  simp only [Renderer.setTarget, hs.target]

theorem verifySkipParameters (node : NodeId) (parameters : Payload) :
    Follows false (Writing called) (verifySkipParameters node parameters)
      (verifySkipParameters node parameters) fun _ _ => Writing called := by
  refine .bind_same targetDocument fun document => ?_
  split
  · exact .pure fun _ _ hs => hs
  · split
    · exact changeRecord node _
    · exact .ite (.bind_same (readTarget _) fun _ => .fail) (.pure fun _ _ hs => hs)

theorem openServerElement (name key : String) (parameters : Option Payload) :
    Follows false (Writing called) (openServerElement name key parameters)
      (openServerElement name key parameters)
      fun renders renders' s s' => renders' = renders ∧ Writing called s s' := by
  have answered : ∀ renders : Bool, Follows false (Writing called)
      (pure renders : RenderM MarkupWriter Bool) (pure renders)
      fun renders renders' s s' => renders' = renders ∧ Writing called s s' :=
    fun _ => .pure fun _ _ hs => ⟨rfl, hs⟩
  refine renderer fun r r' _ hr hr' => ?_
  simp only [Renderer.kind_of_layers hr, Renderer.kind_of_layers hr']
  refine .bind_same (callTarget fun _ => rfl) fun opened => .bind (stampKey key) fun _ _ => ?_
  cases opened with
  | none => exact answered true
  | some node =>
    refine .bind_same (readTarget _) fun content => ?_
    cases content with
    | false => exact answered true
    | true =>
      have skipped : Follows false (Writing called)
          (do RenderM.emit .skip; RenderM.emit .closeElement; return false)
          (do RenderM.emit .skip; RenderM.emit .closeElement; return false)
          fun renders renders' s s' => renders' = renders ∧ Writing called s s' :=
        .bind (emit _) fun _ _ => .bind (emit _) fun _ _ => answered false
      cases parameters.filter Payload.isSupplied with
      | none => exact skipped
      | some supplied => exact .bind (verifySkipParameters node supplied) fun _ _ => skipped

theorem maybeSkip (told : Bool) :
    Follows false (Writing called) (maybeSkip told) (maybeSkip told)
      fun skipped skipped' s s' => skipped' = skipped ∧ Writing called s s' := by
  refine renderer fun r r' _ hr hr' => ?_
  simp only [Renderer.kind_of_layers hr, Renderer.kind_of_layers hr']
  have answered : Follows false (Writing called) (pure told : RenderM MarkupWriter Bool) (pure told)
      fun skipped skipped' s s' => skipped' = skipped ∧ Writing called s s' :=
    .pure fun _ _ hs => ⟨rfl, hs⟩
  cases told with
  | false => exact answered
  | true => exact .bind (emit _) fun _ _ => .bind (emit _) fun _ _ => answered

theorem writeBlob (node : NodeId) (markup : String) :
    Follows false (Writing called) (writeBlob node markup) (writeBlob node markup)
      fun _ _ => Writing called := by
  refine .bind_same targetDocument fun document => ?_
  exact .ite (.bind (emit _) fun _ _ => changeRecord node _) (.pure fun _ _ hs => hs)

theorem markup {markup : String} (h : needsMarkup markup = true) :
    Follows false (Writing called) (print (.sanitizedHtml markup)) (print (.sanitizedHtml markup))
      fun _ _ => Writing called := by
  have closed : Follows false (Writing called)
      (do RenderM.emit .skip; RenderM.emit .closeElement)
      (do RenderM.emit .skip; RenderM.emit .closeElement) fun _ _ => Writing called :=
    .bind (emit _) fun _ _ => emit _
  simp only [print, h, if_true]
  refine .bind_same (openElement _ _) fun blob => ?_
  cases blob with
  | none => exact closed
  | some node => exact .bind (writeBlob node markup) fun _ _ => closed

theorem lockstep (called : Prop) : Lockstep false fun _ => Writing called where
  weaken := fun hs => hs
  unlogged := fun hs => by
    simp only [Renderer.logger?, hs.layers.1, hs.layers.2, hs.logger.1, hs.logger.2, and_self]
  keys := fun change change' hs => by
    simp only [Renderer.changeKeys, hs.layers.1, hs.layers.2]
    exact ⟨hs.target, ⟨rfl, rfl⟩, hs.logger, hs.queue, hs.called⟩
  shared := fun sh sh' hs hsh =>
    ⟨hs.target, hs.layers, hs.logger, hs.queue, hsh.trans hs.called⟩
  emit := fun hcall => (emit? hcall).post fun _ _ _ _ hs => hs.2
  markup := fun _ h => markup h
  serve := fun name key parameters => (openServerElement name key parameters).post <| by
    rintro renders _ s s' ⟨rfl, hs⟩
    exact ⟨hs, .refl false _ _⟩
  skip := fun told => (maybeSkip told).post <| by
    rintro skipped _ s s' ⟨rfl, hs⟩
    exact ⟨hs, .refl false _ _⟩

theorem flushQueue :
    Follows false (Writing called) (flushQueue (τ := MarkupWriter)) flushQueue
      fun _ _ => Writing called := by
  intro ctx ctx' s s' a t _ hs hdone
  have hrun : ∀ (ctx : Context) (s : RenderState MarkupWriter), s.renderer.pass.queue = [] →
      RenderM.flushQueue ctx s = .done () { s with renderer := s.renderer.clearQueue } :=
    fun ctx s hqueue => by simp only [RenderM.flushQueue, bind_run, RenderM.renderer, hqueue]; rfl
  rw [hrun ctx s hs.queue.1] at hdone
  cases hdone
  exact ⟨(), _, hrun ctx' s' hs.queue.2, hs.target, hs.layers, hs.logger, ⟨rfl, rfl⟩, hs.called⟩

theorem setLogger :
    Follows false (Writing called) (setLogger (τ := MarkupWriter) none) (setLogger none)
      fun _ _ => Writing called := by
  intro ctx ctx' s s' a t _ hs hdone
  cases hdone
  refine ⟨(), _, rfl, ?_⟩
  simp only [Renderer.setLogger, hs.layers.1, hs.layers.2]
  exact ⟨hs.target, ⟨rfl, rfl⟩, ⟨rfl, rfl⟩, hs.queue, hs.called⟩

theorem patch {template template' : RenderM MarkupWriter Unit}
    (h : Follows false (Writing called) template template' fun _ _ => Writing called)
    (root : NodeId) (mode : PatchMode) (rule : Key.MatchRule) :
    Follows false (Writing called) (patch root mode rule none template)
      (patch root mode rule none template') fun _ _ => Writing called := by
  have hcall : ∀ call, Follows false (Writing called) (RenderM.callTarget (τ := MarkupWriter) call)
      (RenderM.callTarget call) fun _ _ => Writing called :=
    fun call => (callTarget fun _ => rfl).post fun _ _ _ _ hs => hs.2
  exact .bind (.bracketed hcall setLogger h) fun _ _ => flushQueue

end Writing

def WritesAlike (template : Rendering) : Prop :=
  ∀ called, Follows false (Writing called) (template MarkupWriter) (template MarkupWriter)
    fun _ _ => Writing called

theorem WritesAlike.withParameter {template : Rendering} (h : WritesAlike template)
    (parameter : Option String) :
    WritesAlike fun σ _ => RenderM.withParameter parameter (template σ) :=
  fun called => (h called).withParameter parameter

theorem WritesAlike.enclosed {template : Rendering} (h : WritesAlike template)
    (kind : RenderedKind) : WritesAlike (enclosed kind template) := by
  intro called
  cases kind with
  | html => exact h called
  | attributes =>
    exact .bind_same (Writing.openElement "div" "") fun _ => .bind (h called) fun _ _ =>
      .bind (Writing.emit _) fun _ _ => Writing.emit _

namespace Lockstep

open RenderM

variable {ρ : Type} [RenderTarget ρ] {watched : Bool}
  {X : Bool → RenderState MarkupWriter → RenderState ρ → Prop} (L : Lockstep watched X) {o : Bool}
  {template : Rendering}
include L

theorem write (h : WritesAlike template) :
    Follows watched (X o) (RenderM.write (τ := MarkupWriter) template)
      (RenderM.write (τ := ρ) template) fun w w' s s' => w' = w ∧ X o s s' := by
  refine L.unloggedBind ?_
  intro ctx ctx' s s' w t hctx hs hdone
  obtain ⟨⟨_, after⟩, u, hdetour, hpure⟩ := bind_eq_done.1 hdone
  cases hpure
  have hpatch := Writing.patch (h s.shared.Called) MarkupWriter.root .inner .keyed
  unfold detour at hdetour
  simp only at hdetour
  cases hinside : RenderM.patch MarkupWriter.root .inner .keyed none (template MarkupWriter)
      { ctx with watched := false, pinned := s.renderer.held ++ ctx.pinned }
      ⟨.start .new, s.shared⟩ with
  | failed e v => rw [hinside] at hdetour; cases hdetour
  | broken f => rw [hinside] at hdetour; cases hdetour
  | done a v =>
    rw [hinside] at hdetour
    cases hdetour
    have halike : Context.Alike false
        { ctx with watched := false, pinned := s.renderer.held ++ ctx.pinned }
        { ctx' with watched := false, pinned := s'.renderer.held ++ ctx'.pinned } :=
      ⟨rfl, hctx.parameter, hctx.injected, hctx.stampsKeys⟩
    have hstart : Writing s.shared.Called ⟨.start .new, s.shared⟩ ⟨.start .new, s'.shared⟩ :=
      ⟨rfl, ⟨rfl, rfl⟩, ⟨rfl, rfl⟩, ⟨rfl, rfl⟩, Iff.rfl⟩
    obtain ⟨b, v', hinside', hv⟩ := hpatch _ _ _ _ _ v halike hstart hinside
    have hdetour' : detour (.start .new) (RenderM.patch MarkupWriter.root .inner .keyed none
        (template MarkupWriter)) ctx' s' = .done ((), v'.renderer) { s' with shared := v'.shared } := by
      simp only [detour, hinside']
    exact ⟨v'.renderer.pass.target, _, bind_eq_done.2 ⟨_, _, hdetour', rfl⟩, hv.target,
      L.shared _ _ hs hv.called⟩

theorem renderedText (kind : RenderedKind) (h : WritesAlike template) :
    Follows watched (X o) (RenderM.renderedText (τ := MarkupWriter) kind template)
      (RenderM.renderedText (τ := ρ) kind template) fun text text' s s' =>
        text' = text ∧ X o s s' := by
  rw [renderedText_eq, renderedText_eq]
  exact .bind_same (L.write (h.enclosed kind)) fun _ => .pure fun _ _ hs => ⟨rfl, hs⟩

end Lockstep

end KeyedRender

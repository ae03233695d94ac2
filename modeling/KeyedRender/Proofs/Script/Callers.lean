import KeyedRender.Proofs.Script.Traces

/-!
# The way to a moment

Every moment of a run is on the course from where the run starts, and so are the moments of a run
that breaks later. The components that are rendering at a moment were begun by earlier ones, its
callers, and all moments since then belong to their renderings.
-/
namespace KeyedRender

open RenderM (beginComponent)

theorem append_eq_append_cons {α : Type} {l l' before after : List α} {a : α}
    (h : l ++ l' = before ++ a :: after) :
    (∃ later, l = before ++ a :: later ∧ after = later ++ l') ∨
      ∃ middle, before = l ++ middle ∧ l' = middle ++ a :: after := by
  rcases List.append_eq_append_iff.1 h with ⟨middle, rfl, hl'⟩ | ⟨middle, rfl, hafter⟩
  · exact .inr ⟨middle, rfl, hl'⟩
  · cases middle with
    | nil => exact .inr ⟨[], by simp, hafter.symm⟩
    | cons first later =>
      cases hafter
      exact .inl ⟨later, rfl, rfl⟩

section

variable {τ : Type} [RenderTarget τ]

def Moment.Begins (m : Moment τ) (id : ComponentId) (t : RenderState τ) : Prop :=
  ∃ spec, m.question = .component spec ∧ beginComponent spec m.context m.state = .done id t

theorem Moment.Begins.not_rendering {m : Moment τ} {id : ComponentId} {t : RenderState τ}
    (h : m.Begins id t) : id ∉ m.context.rendering := by
  obtain ⟨spec, -, hbegin⟩ := h
  have entered : ∀ {other : ComponentId} {s : RenderState τ},
      RenderM.enterComponent other m.context s = .done id t → id ∉ m.context.rendering := by
    intro other s henter
    rw [RenderM.enterComponent_run] at henter
    split at henter
    · cases henter
    · next hother =>
      cases henter
      exact hother
  obtain ⟨found, hfound⟩ := RenderM.findComponent?_done spec.type
    (Key.encode spec.first ++ m.state.renderer.currentKey) m.context m.state
  simp only [beginComponent, RenderM.bind_run, RenderM.renderer, hfound] at hbegin
  cases found with
  | some other => exact entered hbegin
  | none =>
    simp only [RenderM.bind_run, Stable.createComponent_run] at hbegin
    exact entered hbegin

theorem extends_of_beginComponent {spec : ComponentSpec} {ctx : Context} {s t : RenderState τ}
    {id : ComponentId} (h : beginComponent spec ctx s = .done id t) :
    s.shared.registry.Extends t.shared.registry := by
  rcases (RenderM.beginComponent_cases h).2 with ht | ⟨type, key, label, ht⟩
  · rw [ht]
    exact Registry.extends_countRender _ id
  · rw [ht]
    exact (Registry.extends_create _ _).trans (Registry.extends_countRender _ _)

variable {allowed : Instruction → Prop} {w : Bool}
  {R : List (Moment τ) → RenderState τ → RenderState τ → Prop}

/-- A course that leads into the parts of a run: scripts of steps that are allowed keep to it, and
so does what comes before each part. -/
structure Guides (allowed : Instruction → Prop) (w : Bool)
    (R : List (Moment τ) → RenderState τ → RenderState τ → Prop) : Prop extends Course R where
  script : ∀ script : Script, script.All allowed → Traces w R (script.run τ) script.moments
  server : ∀ name key parameters, Traces w R (RenderM.openServerElement name key parameters)
    fun ctx s => [⟨.block (.openServerElement name key parameters), ctx, s⟩]
  answered : ∀ question answer, Traces w R (RenderM.answer question answer) .none
  block : ∀ {b ctx s}, Question.IsPlain (.block b) → R [⟨.block b, ctx, s⟩] s s
  pushed : ∀ s layer, R [] s (s.push layer)
  begun : ∀ {spec ctx s id t}, ctx.watched = w → s.renderer.kind ≠ .probe →
    beginComponent spec ctx s = .done id t → R [⟨.component spec, ctx, s⟩] s t
  opened : ∀ name key, Traces w R (RenderM.openElement name key) .none

theorem Guides.of_path {side : Shared → Shared → Prop} (hS : Side side) (h : Path side w R)
    (hpushed : ∀ s layer, R [] s (s.push layer)) : Guides allowed w R where
  toCourse := h.toCourse
  script script _ := script.traces hS h
  server name key parameters := h.openServerElement name key parameters
  answered question answer := h.answer hS.reporting question answer
  block hb := h.still _ hb
  pushed := hpushed
  begun hw hkind hbegin := (h.component hw hkind hbegin (h.refl _)).1
  opened name key := h.openElement name key

def Conserves (I : Condition τ) (_ : List (Moment τ)) (s t : RenderState τ) : Prop :=
  I s.renderer.pass.target s.shared.registry → I t.renderer.pass.target t.shared.registry

omit [RenderTarget τ] in
theorem Traces.of_triple {α : Type} {fault : Fault → Prop} {I : Condition τ} {m : RenderM τ α}
    (h : ∀ n, Triple ⟨fault, n, I⟩ I m fun _ => I) (ms : Moments τ) :
    Traces w (Conserves I) m ms :=
  fun ctx s _ _ ht hi => Outcome.Meets.of_endsIn (h s.renderer.layers.length ctx s rfl hi) ht

theorem Guides.of_stable {W : Scope τ} {I : Condition τ} (hstep : ∀ i, allowed i → W.step i)
    (hnode : ∀ node, W.node node) (h : ∀ n, Stable W n fun _ => I) :
    Guides allowed w (Conserves I) where
  refl _ hi := hi
  append hs ht hi := ht (hs hi)
  script script hs :=
    .of_triple (fun n => script.steady hs τ W n I hstep (fun _ => hnode) (h n)) _
  server name key parameters := .of_triple (fun n =>
    ((h n).openServerElement (k := 0) (L := fun _ => True) trivial name key parameters).constant) _
  answered question answer :=
    .of_triple (fun n => (Quiet.answer question answer).triple (x := ⟨W.fault, n, I⟩)) _
  block _ hi := hi
  pushed _ _ hi := hi
  begun {spec ctx s id t} _ _ hbegin hi := by
    have hgrown := (h 0).grows (k := 0) hi (extends_of_beginComponent hbegin)
    rwa [← Renderer.target_enqueue s.renderer id, ← RenderM.beginComponent_renderer hbegin] at hgrown
  opened name key := .of_triple (fun n =>
    ((h n).openElement (k := 0) (L := fun _ => True) name key).constant.post fun _ _ _ hp => hp.1) _

/-- An earlier moment has begun a component, and all moments since then are in its rendering. -/
structure CalledBy (R : List (Moment τ) → RenderState τ → RenderState τ → Prop)
    (before : List (Moment τ)) (m : Moment τ) (id : ComponentId) (earlier : List (Moment τ))
    (caller : Moment τ) (between : List (Moment τ)) (t : RenderState τ) : Prop where
  split : before = earlier ++ caller :: between
  begins : caller.Begins id t
  within : ∀ m' ∈ between ++ [m], id :: caller.context.rendering <:+ m'.context.rendering
  course : R between t m.state

/-- The way to a moment of a run that starts in a context and a state. -/
structure Approach (R : List (Moment τ) → RenderState τ → RenderState τ → Prop) (ctx : Context)
    (s : RenderState τ) (before : List (Moment τ)) (m : Moment τ) : Prop where
  course : R before s m.state
  within : ∀ m' ∈ before ++ [m], ctx.rendering <:+ m'.context.rendering
  callers : ∀ id ∈ m.context.rendering, id ∈ ctx.rendering ∨
    ∃ earlier caller between t, CalledBy R before m id earlier caller between t

namespace Approach

variable {ctx : Context} {s t : RenderState τ} {before : List (Moment τ)} {m : Moment τ}

theorem here (h : Course R) (question : Question) (ctx : Context) (s : RenderState τ) :
    Approach R ctx s [] ⟨question, ctx, s⟩ where
  course := h.refl s
  within m' hm' := by
    obtain rfl := List.mem_singleton.1 hm'
    exact List.suffix_rfl
  callers _ hid := .inl hid

theorem after (h : Course R) {ms : List (Moment τ)} (hms : R ms s t)
    (hin : ∀ m' ∈ ms, ctx.rendering <:+ m'.context.rendering) (hm : Approach R ctx t before m) :
    Approach R ctx s (ms ++ before) m where
  course := h.append hms hm.course
  within m' hm' := by
    rw [List.append_assoc] at hm'
    exact (List.mem_append.1 hm').elim (hin m') (hm.within m')
  callers id hid := (hm.callers id hid).imp_right fun ⟨earlier, caller, between, u, hcall⟩ =>
    ⟨ms ++ earlier, caller, between, u, by rw [hcall.split, List.append_assoc], hcall.begins,
      hcall.within, hcall.course⟩

theorem congr {ctx' : Context} (hm : Approach R ctx' s before m)
    (hctx : ctx'.rendering = ctx.rendering) : Approach R ctx s before m where
  course := hm.course
  within := hctx ▸ hm.within
  callers := hctx ▸ hm.callers

theorem inside (h : Guides allowed w R) {spec : ComponentSpec} {id : ComponentId} (hw : ctx.watched = w)
    (hkind : s.renderer.kind ≠ .probe) (hbegin : beginComponent spec ctx s = .done id t)
    (hm : Approach R { ctx with rendering := id :: ctx.rendering } t before m) :
    Approach R ctx s (⟨.component spec, ctx, s⟩ :: before) m where
  course := h.append (h.begun hw hkind hbegin) hm.course
  within m' hm' := by
    rcases List.mem_cons.1 hm' with rfl | hm'
    · exact List.suffix_rfl
    · exact (List.suffix_cons _ _).trans (hm.within m' hm')
  callers other hother := by
    rcases hm.callers other hother with hid | ⟨earlier, caller, between, u, hcall⟩
    · rcases List.mem_cons.1 hid with rfl | hid
      · exact .inr ⟨[], ⟨.component spec, ctx, s⟩, before, t, rfl, ⟨spec, rfl, hbegin⟩, hm.within,
          hm.course⟩
      · exact .inl hid
    · exact .inr ⟨⟨.component spec, ctx, s⟩ :: earlier, caller, between, u,
        by rw [hcall.split, List.cons_append], hcall.begins, hcall.within, hcall.course⟩

end Approach

def Approaches (w : Bool) (R : List (Moment τ) → RenderState τ → RenderState τ → Prop)
    (ms : Moments τ) : Prop :=
  ∀ ctx s before m after, ctx.watched = w → ms ctx s = before ++ m :: after →
    Approach R ctx s before m

namespace Approaches

variable {α : Type} {m : RenderM τ α} {ms : Moments τ}

theorem within (h : Approaches w R ms) {ctx : Context} {s : RenderState τ} (hw : ctx.watched = w)
    {m : Moment τ} (hm : m ∈ ms ctx s) : ctx.rendering <:+ m.context.rendering := by
  obtain ⟨before, after, hsplit⟩ := List.append_of_mem hm
  exact (h ctx s before m after hw hsplit).within m (by simp)

theorem none : Approaches w R Moments.none := fun _ _ before _ _ _ h => by
  cases before <;> cases h

theorem single (h : Course R) (question : Question) :
    Approaches w R fun ctx s => [⟨question, ctx, s⟩] := by
  intro ctx s before m after _ hsplit
  cases before with
  | nil =>
    cases hsplit
    exact .here h question ctx s
  | cons first rest => simp at hsplit

theorem bind (h : Course R) {next : α → Moments τ} (hm : Traces w R m ms)
    (hms : Approaches w R ms) (hn : ∀ a, Approaches w R (next a)) :
    Approaches w R fun ctx s => ms ctx s ++ Moments.after m next ctx s := by
  intro ctx s before c after hw hsplit
  rcases append_eq_append_cons hsplit with ⟨later, hlater, -⟩ | ⟨middle, rfl, hmiddle⟩
  · exact hms ctx s before c later hw hlater
  · unfold Moments.after at hmiddle
    cases ho : m ctx s with
    | done a t =>
      rw [ho] at hmiddle
      exact .after h (hm ctx s t hw (.inl ⟨a, ho⟩)) (fun m' hm' => hms.within hw hm')
        (hn a ctx t middle c after hw hmiddle)
    | failed e t =>
      rw [ho] at hmiddle
      cases middle <;> cases hmiddle
    | broken f =>
      rw [ho] at hmiddle
      cases middle <;> cases hmiddle

theorem after (h : Course R) {next : α → Moments τ} (hm : Traces w R m .none)
    (hn : ∀ a, Approaches w R (next a)) : Approaches w R (.after m next) :=
  bind h hm none hn

theorem changed (h : Approaches w R ms) {change : Context → Context}
    (hw : ∀ ctx, (change ctx).watched = ctx.watched)
    (hr : ∀ ctx, (change ctx).rendering = ctx.rendering) : Approaches w R (ms.within change) :=
  fun ctx s before m after hctx hsplit =>
    (h (change ctx) s before m after ((hw ctx).trans hctx) hsplit).congr (hr ctx)

variable (hG : Guides allowed w R)
include hG

theorem under (h : Approaches w R ms) (layer : Layer) : Approaches w R (ms.under layer) :=
  fun ctx s before m after hw hsplit => by
    have hlater := h ctx (s.push layer) before m after hw hsplit
    exact .after hG.toCourse (hG.pushed s layer) (by simp) hlater

theorem shielded (h : Approaches w R ms) : Approaches w R ms.shielded :=
  fun ctx s before m after hw hsplit => by
    have hlater := h ctx s.muted before m after hw hsplit
    exact .after hG.toCourse (hG.pushed s _) (by simp) hlater

theorem muted (h : Approaches w R ms) : Approaches w R ms.muted := by
  intro ctx s before m after hw hsplit
  unfold Moments.muted at hsplit
  split at hsplit
  · exact h.shielded hG ctx s before m after hw hsplit
  · cases before <;> cases hsplit
  · exact h ctx s before m after hw hsplit

theorem insideBlock (h : Approaches w R ms) {b : Block} (hb : Question.IsPlain (.block b)) :
    Approaches w R (b.moments ms) := by
  have parametrized : ∀ parameter : Option String, Approaches w R
      (ms.within fun ctx => { ctx with parameter := parameter.getD ctx.parameter }) :=
    fun _ => h.changed (fun _ => rfl) fun _ => rfl
  cases b with
  | openServerElement name key parameters => exact hb.elim
  | attempt => exact h
  | probe => exact h.under hG _
  | coerce kind => exact none
  | muted => exact h.muted hG
  | shielded => exact h.shielded hG
  | isTruthy => exact h.under hG _
  | print => exact h
  | printContent => exact h
  | callHtml kind parameter =>
    cases kind with
    | html => exact parametrized parameter
    | attributes => exact none
  | callAttributes kind parameter filter =>
    cases kind with
    | html => exact none
    | attributes => exact parametrized parameter
  | callText kind parameter escaper => exact none
  | callEscaped kind parameter escaper => exact none
  | functionText kind => exact none
  | functionTruth kind => exact h.under hG _
  | functionCall kind => exact h
  | printAttributes kind filter =>
    cases kind with
    | html => exact none
    | attributes => exact h

theorem block (h : Approaches w R ms) (b : Block) :
    Approaches w R fun ctx s => ⟨.block b, ctx, s⟩ :: b.moments ms ctx s := by
  by_cases hb : Question.IsPlain (.block b)
  · intro ctx s before m after hw hsplit
    rcases List.cons_eq_append_iff.1 hsplit with ⟨rfl, hhead⟩ | ⟨rest, rfl, hrest⟩
    · cases hhead
      exact .here hG.toCourse (.block b) ctx s
    · have hlater := h.insideBlock hG hb ctx s rest m after hw hrest
      exact .after hG.toCourse (hG.block hb)
        (fun m' hm' => List.mem_singleton.1 hm' ▸ List.suffix_rfl) hlater
  · obtain ⟨name, key, parameters, rfl⟩ :
        ∃ name key parameters, b = .openServerElement name key parameters := by
      cases b with
      | openServerElement name key parameters => exact ⟨name, key, parameters, rfl⟩
      | _ => exact absurd trivial hb
    refine .bind hG.toCourse (hG.server name key parameters) (.single hG.toCourse _) fun renders =>
      .after hG.toCourse (hG.answered _ _) fun _ => ?_
    cases renders with
    | true => exact h
    | false => exact none

theorem component (spec : ComponentSpec) {before : RenderM τ Unit} {mb : Moments τ}
    (hbefore : Traces w R before mb) (hb : Approaches w R mb) (h : Approaches w R ms) :
    Approaches w R fun ctx s => ⟨.component spec, ctx, s⟩ :: spec.moments before mb ms ctx s := by
  have hroot : Approaches w R (spec.rootMoments ms) := by
    unfold ComponentSpec.rootMoments
    split
    · exact none
    · exact none
    · exact .after hG.toCourse (hG.opened _ _) fun _ => h
  have hbody := Approaches.bind hG.toCourse hbefore hb fun _ => hroot
  intro ctx s past m after hw hsplit
  rcases List.cons_eq_append_iff.1 hsplit with ⟨rfl, hhead⟩ | ⟨rest, rfl, hrest⟩
  · cases hhead
    exact .here hG.toCourse (.component spec) ctx s
  unfold ComponentSpec.moments at hrest
  split at hrest
  · cases rest <;> cases hrest
  next hkind =>
  unfold Moments.after at hrest
  cases hbegin : beginComponent spec ctx s with
  | done id t =>
    rw [hbegin] at hrest
    exact .inside hG hw hkind hbegin
      (hbody { ctx with rendering := id :: ctx.rendering } t rest m after hw hrest)
  | failed e t =>
    rw [hbegin] at hrest
    cases rest <;> cases hrest
  | broken f =>
    rw [hbegin] at hrest
    cases rest <;> cases hrest

end Approaches

theorem Guides.first (hG : Guides allowed w R) (script : Script) (hs : script.All allowed)
    {m : RenderM τ Unit} {ms : Moments τ} (hrun : script.run τ = m >>= fun _ => pure ())
    (hms : script.moments = fun ctx s => ms ctx s ++ Moments.after m (fun _ => .none) ctx s) :
    Traces w R m ms := by
  intro ctx s t hw ht
  have hscript := hG.script script hs ctx s t hw (by rwa [hrun, Outcome.EndsIn.returning_iff])
  rw [hms, Traces.after_none] at hscript
  simpa [Moments.none] using hscript

theorem Script.approaches (hG : Guides allowed w R) (script : Script) (hs : script.All allowed) :
    Approaches w R (script.moments (τ := τ)) := by
  induction script with
  | done => exact .none
  | step i next ih =>
    have hstep : Traces w R (RenderM.stepInstruction i) fun ctx s => [⟨.instruction i, ctx, s⟩] :=
      hG.first (.step i .done) ⟨hs.1, trivial⟩ (Script.run_step i .done) rfl
    exact .bind hG.toCourse hstep (.single hG.toCourse _) fun _ => ih hs.2
  | block b body next ihbody ih =>
    have hblock := hG.first (.block b body .done) ⟨hs.1, trivial⟩
      (Script.run_block b body .done) rfl
    exact .bind hG.toCourse hblock ((ihbody hs.1).block hG b) fun _ => ih hs.2
  | component spec before body next ihbefore ihbody ih =>
    have hcomponent := hG.first (.component spec before body .done)
      ⟨hs.1, hs.2.1, trivial⟩ (Script.run_component spec before body .done) rfl
    exact .bind hG.toCourse hcomponent
      (.component hG spec (hG.script before hs.1) (ihbefore hs.1) (ihbody hs.2.1)) fun _ => ih hs.2.2

end

end KeyedRender

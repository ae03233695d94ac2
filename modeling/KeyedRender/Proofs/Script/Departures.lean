import KeyedRender.Proofs.Script.Callers

/-!
# The way from a step

What a run keeps to after one of its steps, until it ends. Whatever a step is nested in, only a few
things follow it besides the rest of the scripts around it: layers are taken off, elements are
closed, and components are attached and introduced.
-/
namespace KeyedRender

open RenderM

variable {τ : Type} [RenderTarget τ] {allowed : Instruction → Prop} {w : Bool}
  {R : List (Moment τ) → RenderState τ → RenderState τ → Prop}

def Moment.LeadsTo (m : Moment τ) (u : RenderState τ) : Prop :=
  ∃ i, m.question = .instruction i ∧ (stepInstruction i m.context m.state).EndsIn u

/-- A course that leads out of the parts of a run as well as into them. -/
structure Escorts (allowed : Instruction → Prop) (w : Bool)
    (R : List (Moment τ) → RenderState τ → RenderState τ → Prop) : Prop
    extends Guides allowed w R where
  popped : ∀ s, R [] s { s with renderer := s.renderer.pop }
  wrote : ∀ value, Traces w R (RenderM.text value) .none
  closed : Traces w R (RenderM.emit .closeElement) .none
  attached : ∀ id root, Traces w R (RenderM.attach id root) .none
  introduced : ∀ id, Traces w R (RenderM.introduce id) .none

theorem Escorts.of_stable {W : Scope τ} {I : Condition τ} (hstep : ∀ i, allowed i → W.step i)
    (hcomponent : ∀ id, W.component id) (hnode : ∀ node, W.node node)
    (h : ∀ n, Stable W n fun _ => I) : Escorts allowed w (Conserves I) where
  toGuides := .of_stable hstep hnode h
  popped _ hi := hi
  wrote value := .of_triple (fun n =>
    ((h n).text (k := 0) (L := fun _ => True) value).constant.post fun _ _ _ hp => hp.1) _
  closed := .of_triple (fun n => ((h n).emitClose (k := 0) (L := fun _ => True)).constant) _
  attached id root := .of_triple (fun n =>
    ((h n).attach (k := 0) (L := fun _ => True) (hcomponent id) fun _ => hnode root).constant) _
  introduced id := .of_triple (fun n =>
    ((h n).introduce (k := 0) (L := fun _ => True) id).constant) _

theorem Escorts.of_path {side : Shared → Shared → Prop} (hS : Side side) (h : Path side w R)
    (hpushed : ∀ s layer, R [] s (s.push layer))
    (hpopped : ∀ s, R [] s { s with renderer := s.renderer.pop })
    (hattached : ∀ id root, Traces w R (RenderM.attach id root) .none)
    (hintroduced : ∀ id, Traces w R (RenderM.introduce id) .none) : Escorts allowed w R where
  toGuides := .of_path hS h hpushed
  popped := hpopped
  wrote := h.text
  closed := h.emit _ trivial
  attached := hattached
  introduced := hintroduced

/-- From the end of every step on, a rendering is on the course. -/
def Departs {α : Type} (w : Bool) (R : List (Moment τ) → RenderState τ → RenderState τ → Prop)
    (m : RenderM τ α) (ms : Moments τ) : Prop :=
  ∀ ctx s t before c after u, ctx.watched = w → (m ctx s).EndsIn t →
    ms ctx s = before ++ c :: after → c.LeadsTo u → R after u t

namespace Departs

section

variable {α β : Type} {m : RenderM τ α} {next : α → RenderM τ β} {ms : Moments τ}
  {ms' : α → Moments τ}

theorem none (m : RenderM τ α) : Departs w R m .none := fun _ _ _ before _ _ _ _ _ hsplit => by
  cases before <;> cases hsplit

theorem after (hn : ∀ a, Departs w R (next a) (ms' a)) :
    Departs w R (m >>= next) (.after m ms') := by
  intro ctx s t before c after u hw ht hsplit hu
  rcases Outcome.EndsIn.bind_iff.1 ht with ⟨e, he⟩ | ⟨a, v, ha, ht⟩
  · rw [Moments.after, he] at hsplit
    cases before <;> cases hsplit
  · rw [Moments.after, ha] at hsplit
    exact hn a ctx v t before c after u hw ht hsplit hu

theorem bind (hC : Course R) (hm : Departs w R m ms) (hnext : ∀ a, Traces w R (next a) (ms' a))
    (hn : ∀ a, Departs w R (next a) (ms' a)) :
    Departs w R (m >>= next) fun ctx s => ms ctx s ++ Moments.after m ms' ctx s := by
  intro ctx s t before c after u hw ht hsplit hu
  rcases append_eq_append_cons hsplit with ⟨later, hlater, rfl⟩ | ⟨middle, -, hmiddle⟩
  · rcases Outcome.EndsIn.bind_iff.1 ht with ⟨e, he⟩ | ⟨a, v, ha, ht⟩
    · have hempty : Moments.after m ms' ctx s = [] := by rw [Moments.after, he]
      rw [hempty, List.append_nil]
      exact hm ctx s t before c later u hw (.inr ⟨e, he⟩) hlater hu
    · have hfollowing : Moments.after m ms' ctx s = ms' a ctx v := by rw [Moments.after, ha]
      rw [hfollowing]
      exact hC.append (hm ctx s v before c later u hw (.inl ⟨a, ha⟩) hlater hu)
        (hnext a ctx v t hw ht)
  · exact Departs.after hn ctx s t middle c after u hw ht hmiddle hu

theorem before (hC : Course R) (hm : Departs w R m ms) (hnext : ∀ a, Traces w R (next a) .none) :
    Departs w R (m >>= next) ms := by
  have hbind := bind hC hm hnext fun a => none (next a)
  simpa only [Traces.after_none, Moments.none, List.append_nil] using hbind

theorem returning (hC : Course R) {f : α → β} (hm : Departs w R m ms) :
    Departs w R (m >>= fun a => pure (f a)) ms := before hC hm fun _ => .pure hC _

theorem behind (h : Departs w R m ms) {question : Question}
    (hq : ∀ i, question ≠ .instruction i) :
    Departs w R m fun ctx s => ⟨question, ctx, s⟩ :: ms ctx s := by
  intro ctx s t before c after u hw ht hsplit hu
  rcases List.cons_eq_append_iff.1 hsplit with ⟨-, hhead⟩ | ⟨rest, -, hrest⟩
  · cases hhead
    obtain ⟨i, hi, -⟩ := hu
    exact absurd hi (hq i)
  · exact h ctx s t rest c after u hw ht hrest hu

theorem attempt (h : Departs w R m ms) : Departs w R (RenderM.attempt m) ms :=
  fun ctx s t before c after u hw ht => h ctx s t before c after u hw ht.of_attempt

theorem withContext (h : Departs w R m ms) (change : Context → Context)
    (hc : ∀ ctx, (change ctx).watched = ctx.watched) :
    Departs w R (RenderM.withContext change m) (ms.within change) :=
  fun ctx s t before c after u hw ht hsplit hu =>
    h (change ctx) s t before c after u ((hc ctx).trans hw) ht hsplit hu

end

variable {m : RenderM τ Unit} {ms : Moments τ} (hE : Escorts allowed w R)
include hE

theorem layered (h : Departs w R m ms) (layer : Layer) :
    Departs w R (RenderM.layered layer m) (ms.under layer) := by
  intro ctx s t before c after u hw ht hsplit hu
  obtain ⟨v, hv, rfl⟩ := layered_of_endsIn ht
  have hbody := h ctx (s.push layer) v before c after u hw hv hsplit hu
  simpa using hE.append hbody (hE.popped v)

theorem shielded (h : Departs w R m ms) : Departs w R (RenderM.shielded m) ms.shielded := by
  intro ctx s t before c after u hw ht hsplit hu
  obtain ⟨v, hv, rfl⟩ := shielded_of_endsIn ht
  have hbody := h ctx s.muted v before c after u hw hv hsplit hu
  simpa using hE.append hbody (hE.popped v)

theorem muted (h : Departs w R m ms) : Departs w R (RenderM.muted m) ms.muted := by
  intro ctx s t before c after u hw ht hsplit hu
  cases hkind : s.renderer.kind with
  | default =>
    simp only [RenderM.muted, bind_run, RenderM.renderer, hkind] at ht
    simp only [Moments.muted, hkind] at hsplit
    exact h.shielded hE ctx s t before c after u hw ht hsplit hu
  | muted =>
    simp only [Moments.muted, hkind] at hsplit
    cases before <;> cases hsplit
  | probe =>
    simp only [RenderM.muted, bind_run, RenderM.renderer, hkind] at ht
    simp only [Moments.muted, hkind] at hsplit
    exact h ctx s t before c after u hw ht hsplit hu

theorem probe (h : Departs w R m ms) :
    Departs w R (RenderM.probe m) (ms.under (.probe false)) :=
  .before hE.toCourse (h.layered hE _) fun result =>
    .before hE.toCourse (.resume hE.toCourse result.1) fun _ => .pure hE.toCourse _

theorem insideBlock {body : Rendering} (h : Departs w R (body τ) ms) (b : Block) :
    Departs w R (b.perform body) (b.moments ms) := by
  have hC := hE.toCourse
  have probed : Departs w R (RenderM.probe (body τ)) (ms.under (.probe false)) := h.probe hE
  have parametrized : ∀ parameter, Departs w R (RenderM.withParameter parameter (body τ))
      (ms.within fun ctx => { ctx with parameter := parameter.getD ctx.parameter }) :=
    fun parameter => h.withContext _ fun _ => rfl
  cases b with
  | openServerElement name key parameters =>
    refine .after fun renders => .after fun _ => ?_
    cases renders with
    | true => exact .returning hC h
    | false => exact none _
  | attempt =>
    refine .before hC h.attempt fun result => ?_
    cases result <;> exact .pure hC _
  | probe => exact .returning hC probed
  | coerce kind => exact none _
  | muted => exact .returning hC (h.muted hE)
  | shielded => exact .returning hC (h.shielded hE)
  | isTruthy => exact .returning hC probed
  | print => exact .returning hC h
  | printContent => exact .returning hC h
  | callHtml kind parameter =>
    cases kind with
    | html => exact .returning hC (parametrized parameter)
    | attributes => exact none _
  | callAttributes kind parameter filter =>
    cases kind with
    | attributes => exact .returning hC (parametrized parameter)
    | html => exact none _
  | callText kind parameter escaper => exact none _
  | callEscaped kind parameter escaper => exact none _
  | functionText kind => exact none _
  | functionTruth kind => exact .returning hC probed
  | functionCall kind => exact .returning hC h
  | printAttributes kind filter =>
    cases kind with
    | attributes => exact .returning hC h
    | html => exact none _

section Components

variable (spec : ComponentSpec) {before body : RenderM τ Unit} {mb : Moments τ}
  (hb : Departs w R before mb) (h : Departs w R body ms) (hbody : Traces w R body ms)
include hb h hbody

theorem renderRoot : Departs w R (RenderM.renderRoot spec before body) fun ctx s =>
    mb ctx s ++ Moments.after before (fun _ => spec.rootMoments ms) ctx s := by
  have hC := hE.toCourse
  have element : ∀ f : Option NodeId → Option NodeId, Departs w R (do
      before
      let root ← openElement spec.name spec.key
      body
      RenderM.emit .closeElement
      return f root) fun ctx s => mb ctx s ++
        Moments.after before (fun _ => .after (openElement spec.name spec.key) fun _ => ms) ctx s := by
    refine fun f => .bind hC hb (fun _ => .after hC (hE.opened _ _) fun _ => ?_) fun _ =>
      .after fun _ => ?_
    · exact .before hC hbody fun _ => .returning hC hE.closed
    · exact .before hC h fun _ => .returning hC hE.closed
  unfold RenderM.renderRoot ComponentSpec.rootMoments
  cases spec.root with
  | text => exact .bind hC hb (fun _ => hE.wrote _) fun _ => none _
  | bare node => exact .bind hC hb (fun _ => .pure hC node) fun _ => none _
  | opened => exact element id
  | none => exact element fun _ => Option.none
  | given node => exact element fun _ => some node

theorem renderComponent : Departs w R (RenderM.renderComponent spec before body)
    (spec.moments before mb ms) := by
  have hC := hE.toCourse
  have hfinish : ∀ id root, Traces w R (finishComponent (τ := τ) id root) .none := by
    intro id root
    cases root with
    | none => exact .pure hC _
    | some node => exact .returning hC (hE.attached id node)
  have hroot := renderRoot hE spec hb h hbody
  intro ctx s t past c after u hw ht hsplit hu
  rw [renderComponent_eq] at ht
  obtain ⟨e, he⟩ | ⟨_, _, hr, ht⟩ := Outcome.EndsIn.bind_iff.1 ht
  · cases he
  cases hr
  by_cases hkind : s.renderer.kind = .probe
  · simp only [ComponentSpec.moments, if_pos hkind] at hsplit
    cases past <;> cases hsplit
  rw [if_neg hkind] at ht
  simp only [ComponentSpec.moments, if_neg hkind] at hsplit
  have hbegun : Departs w R (do
      let id ← beginComponent spec
      finishComponent id (← renderBegun spec before body id)) (.after (beginComponent spec) fun id =>
        .within (fun ctx => { ctx with rendering := id :: ctx.rendering }) fun ctx s =>
          mb ctx s ++ Moments.after before (fun _ => spec.rootMoments ms) ctx s) :=
    .after fun id => .before hC (hroot.withContext _ fun _ => rfl) (hfinish id)
  exact hbegun ctx s t past c after u hw ht hsplit hu

theorem stepComponent : Departs w R (RenderM.stepComponent spec before body) fun ctx s =>
    ⟨.component spec, ctx, s⟩ :: spec.moments before mb ms ctx s := by
  have hC := hE.toCourse
  refine .behind (.before hC (renderComponent hE spec hb h hbody) fun id? => ?_) (by simp)
  cases id? with
  | none => exact .before hC (.pure hC _) fun _ => hE.answered _ _
  | some id => exact .before hC (hE.introduced id) fun _ => hE.answered _ _

end Components

end Departs

/-- The rest of a script's run, after each of its steps. -/
theorem Script.departs (hE : Escorts allowed w R) (script : Script) (hs : script.All allowed) :
    Departs w R (script.run τ) script.moments := by
  have hC := hE.toCourse
  induction script with
  | done => exact .none _
  | step i next ih =>
    rw [run_step]
    have hstep : Departs w R (stepInstruction (τ := τ) i) fun ctx s => [⟨.instruction i, ctx, s⟩] := by
      intro ctx s t before c after u hw ht hsplit ⟨i', hi', hu⟩
      rcases List.cons_eq_append_iff.1 hsplit with ⟨-, hhead⟩ | ⟨rest, -, hrest⟩
      · cases hhead
        cases hi'
        rw [hu.unique ht]
        exact hC.refl t
      · cases rest <;> cases hrest
    exact .bind hC hstep (fun _ => hE.script next hs.2) fun _ => ih hs.2
  | block b body next ihbody ih =>
    rw [run_block]
    refine .bind hC (.behind (.before hC ((ihbody hs.1).insideBlock hE b) fun _ =>
      hE.answered _ _) (by simp)) (fun _ => hE.script next hs.2) fun _ => ih hs.2
  | component spec before body next ihbefore ihbody ih =>
    rw [run_component]
    refine .bind hC (.stepComponent hE spec (ihbefore hs.1) (ihbody hs.2.1)
      (hE.script body hs.2.1)) (fun _ => hE.script next hs.2.2) fun _ => ih hs.2.2

end KeyedRender

import KeyedRender.Proofs.Script.Reentry
import KeyedRender.Proofs.Session.Arrivals

/-!
# No rendering is entered again

However a session was come to, a pass whose renderings nest never calls a component that is
rendering already: neither do its own steps, nor those of content that is turned into text on the
side.
-/
namespace KeyedRender

open RenderM

/-- The moments of scripts, one run after the other, each from where a condition holds. -/
inductive Scripted (I : Condition KeyedDom) (ctx : Context) : List (Moment KeyedDom) → Prop
  | none : Scripted I ctx []
  | script {script : Script} {s : RenderState KeyedDom} :
      I s.renderer.pass.target s.shared.registry → Scripted I ctx (script.moments ctx s)
  | append {ms ms' : List (Moment KeyedDom)} : Scripted I ctx ms → Scripted I ctx ms' →
      Scripted I ctx (ms ++ ms')

namespace Scripted

variable {I P : Condition KeyedDom} {ctx : Context} {s : RenderState KeyedDom}

theorem after {α : Type} {x : Exits KeyedDom} {Q : α → Condition KeyedDom}
    {m : RenderM KeyedDom α} {next : α → Moments KeyedDom} (hm : Triple x P m Q)
    (hl : s.renderer.layers.length = x.layers)
    (hs : P s.renderer.pass.target s.shared.registry)
    (hn : ∀ a t, t.renderer.layers.length = x.layers →
      Q a t.renderer.pass.target t.shared.registry → Scripted I ctx (next a ctx t)) :
    Scripted I ctx (Moments.after m next ctx s) := by
  unfold Moments.after
  cases ho : m ctx s with
  | done a t =>
    obtain ⟨hlayers, ht⟩ := hm.done hl hs ho
    exact hn a t hlayers ht
  | failed e t => exact .none
  | broken f => exact .none

end Scripted

theorem CallInvariant.scripted {E : ComponentId → Prop} {I P : Condition KeyedDom}
    (h : CallInvariant E I) (plan : PassPlan) {ctx : Context} {s : RenderState KeyedDom}
    (hbegin : ∀ t g mode rule, P t g → Allows (fun _ => True) (fun r => I r.2 g)
      (KeyedDom.apply (.beginPatch plan.root mode rule) t)) (hP : ∀ t g, P t g → I t g)
    (hl : s.renderer.layers.length = 0) (hs : P s.renderer.pass.target s.shared.registry) :
    Scripted I ctx (plan.moments ctx s) := by
  have hlogger : ∀ logger, Triple ⟨fun _ => True, 0, I⟩ I (setLogger logger)
      fun _ (t : KeyedDom) g => I t g := fun logger => (Quiet.setLogger logger).triple
  have hbegins : ∀ mode rule, Triple ⟨fun _ => True, 0, I⟩ P
      (callTarget (.beginPatch plan.root mode rule)) fun _ (t : KeyedDom) g => I t g :=
    fun mode rule => .callTarget fun t g hp => hbegin t g mode rule hp
  cases plan with
  | bracketed root mode rule logger script =>
    exact .after (hbegins mode rule) hl hs fun _ t hl ht =>
      .after (hlogger logger) hl ht fun _ u _ hu => .script hu
  | direct root begins logger first second =>
    have hscripts : ∀ t : RenderState KeyedDom, t.renderer.layers.length = 0 →
        I t.renderer.pass.target t.shared.registry →
        Scripted I ctx ((PassPlan.direct root false logger first second).moments ctx t) := by
      intro t hl ht
      simp only [PassPlan.moments, Bool.false_eq_true, if_false]
      refine .after (hlogger logger) hl ht fun _ u hl hu => .append (.script hu) ?_
      refine .after (h.attempt first) hl hu fun result _ hl hi => ?_
      refine .after CallInvariant.logQueueLength hl hi fun _ _ hl hi => ?_
      refine .after h.flushQueue hl hi fun _ _ hl hi => ?_
      refine .after CallInvariant.logQueueLength hl hi fun _ v _ hi => ?_
      cases result with
      | ok _ => exact .script hi
      | error e => exact .none
    cases begins with
    | false => exact hscripts s hl (hP _ _ hs)
    | true =>
      exact .after (hbegins .inner .keyed) hl hs fun _ t hl ht => hscripts t hl ht

/-- No moment of scripts that nest calls a component that is rendering, nor does any on its side. -/
theorem Scripted.admits {ctx : Context} {ms : List (Moment KeyedDom)}
    (h : Scripted Orderly ctx ms) (hctx : ctx.rendering = []) (hn : Nests ms) :
    ∀ m ∈ ms, m.Admits ∧ ∀ m', Beside m.context m.state.shared m' → m'.Admits := by
  induction h with
  | none => simp
  | script hs =>
    exact fun m hm => ⟨Script.admits hctx hs hn hm, fun m' hbeside =>
      (hbeside.admits (Script.known hctx hm)).2⟩
  | append _ _ ih ih' =>
    obtain ⟨hms, hms'⟩ := nests_append hn
    exact fun m hm => (List.mem_append.1 hm).elim (ih hms m) (ih' hms' m)

namespace Session

def Addresses (s : Session KeyedDom) : Act → Prop
  | .pass _ plan => s.target.document.isLive plan.root = true
  | .appendElement parent _ _ => s.target.document.isLive parent = true
  | .appendText parent _ => s.target.document.isLive parent = true
  | .appendComment parent _ => s.target.document.isLive parent = true
  | .remove node => s.target.document.isLive node = true

theorem begin_orderly {root : NodeId} (t : KeyedDom) (g : Registry) (mode : PatchMode)
    (rule : Key.MatchRule) (h : Orderly t g ∧ t.document.isLive root = true) :
    Allows (fun _ => True) (fun r => Orderly r.2 g)
      (KeyedDom.apply (.beginPatch root mode rule) t) := by
  obtain ⟨h, hroot⟩ := h
  obtain ⟨n, hn⟩ := Document.isLive_iff.1 hroot
  have hordered : Allows (fun _ => True) (fun r => r.2.Ordered)
      (KeyedDom.apply (.beginPatch root mode rule) t) :=
    (h.1.beginPatch (Document.lt_size_of_node? hn) mode rule).map fun _ ht => ht
  exact hordered.and (slotInvariant_linked.call h.2 (.beginPatch root mode rule))

structure EditInvariant (I : KeyedDom → Prop) : Prop where
  append : ∀ {t parent content}, I t → (parent : Nat) < t.document.size →
    (∀ e, content = .element e → e.children = []) →
    Allows (fun _ => True) (fun r => I r.2) (t.append parent content)
  appendComment : ∀ {t} parent value, I t →
    Allows (fun _ => True) (fun r => I r.2) (t.appendComment parent value)
  remove : ∀ {t} id, I t → Allows (fun _ => True) I (t.remove id)

theorem EditInvariant.perform {I : KeyedDom → Prop} (hI : EditInvariant I) {s : Session KeyedDom}
    (h : I s.target) {a : Act} (ha : s.Addresses a) (hedit : a.IsEdit) :
    Allows (fun _ => True) (fun s' => I s'.target) (s.perform a) := by
  have appended : ∀ parent content, s.target.document.isLive parent = true →
      (∀ e, content = .element e → e.children = []) →
      Allows (fun _ => True) (fun s' => I s'.target) ((s.append parent content).map Prod.snd) := by
    intro parent content hparent hc
    obtain ⟨n, hn⟩ := Document.isLive_iff.1 hparent
    have happend : Allows (fun _ => True) (fun r : NodeId × Session KeyedDom => I r.2.target)
        (s.append parent content) :=
      (hI.append h (Document.lt_size_of_node? hn) hc).bind fun _ hr => hr
    exact happend.map fun _ hr => hr
  cases a with
  | pass settings plan => exact hedit.elim
  | appendElement parent name key => exact appended parent _ ha (by rintro _ ⟨⟩; rfl)
  | appendText parent value => exact appended parent _ ha (by simp)
  | appendComment parent value =>
    have hcall : Allows (fun _ => True)
        (fun r : Option NodeId × Session KeyedDom => I r.2.target)
        (s.call (.appendComment parent value)) :=
      (hI.appendComment parent value h).bind fun _ hr => hr
    exact hcall.map fun _ hr => hr
  | remove node =>
    have hremove : Allows (fun _ => True) (fun s' : Session KeyedDom => I s'.target)
        (s.remove node) := (hI.remove node h).bind fun _ hr => hr
    exact hremove

theorem ordered_edits : EditInvariant KeyedDom.Ordered where
  append h hparent hc := h.append hparent hc
  appendComment parent value h := h.appendComment parent value
  remove id h := h.remove id

theorem perform_orderly {s : Session KeyedDom} (h : Orderly s.target s.registry) {a : Act}
    (ha : s.Addresses a) :
    Allows (fun _ => True) (fun s' => Orderly s'.target s'.registry) (s.perform a) := by
  have edited : a.IsEdit →
      Allows (fun _ => True) (fun s' => Orderly s'.target s'.registry) (s.perform a) :=
    fun hedit => (ordered_edits.perform h.1 ha hedit).and
      (perform_keeps slotInvariant_linked h.2 a)
  cases a with
  | pass settings plan =>
    exact pass_of_meets (orderly_calls.plan plan begin_orderly (fun _ _ hp => hp.1)
      (context settings) s.initial rfl ⟨h, ha⟩)
  | _ => exact edited trivial

theorem Reached.orderly {s : Session KeyedDom} (h : Reached Addresses s) :
    Orderly s.target s.registry := by
  induction h with
  | start => exact ⟨KeyedDom.ordered_new, linked_start⟩
  | act _ ha hs ih =>
    have hnext := perform_orderly ih ha
    rw [hs] at hnext
    exact hnext

theorem scripted_momentsOf {s : Session KeyedDom} (h : Orderly s.target s.registry) {a : Act}
    (ha : s.Addresses a) : ∃ ctx : Context, ctx.rendering = [] ∧
      Scripted Orderly ctx (s.momentsOf a) := by
  cases a with
  | pass settings plan =>
    exact ⟨context settings, rfl, orderly_calls.scripted plan begin_orderly (fun _ _ hp => hp.1)
      (s := s.initial) rfl ⟨h, ha⟩⟩
  | _ => exact ⟨context ⟨"", .null, loggedText, true⟩, rfl, .none⟩

/-- In a pass whose renderings nest, every call of a component finds none that is rendering, so
that its rendering begins. And so it is in all content that is turned into text on the way, however
deep. -/
theorem calls_admitted {s : Session KeyedDom} (h : Reached Addresses s) {a : Act}
    (ha : s.Addresses a) (hn : Nests (s.momentsOf a)) :
    ∀ m ∈ s.momentsOf a, m.Admits ∧ ∀ m', Beside m.context m.state.shared m' → m'.Admits := by
  obtain ⟨ctx, hctx, hscripted⟩ := scripted_momentsOf h.orderly ha
  exact hscripted.admits hctx hn

def nestedPass : Act :=
  .pass ⟨"", .null, loggedText, true⟩ (.bracketed 0 .inner .keyed none
    (.component ⟨.counter, .text "a", "", "div", "", .opened⟩ .done
      (.component ⟨.counter, .text "a", "", "div", "", .opened⟩ .done .done .done) .done))

/-- Two components of one type and key, one in the other, are both found again. -/
theorem calls_admitted_nested : ∃ s s', (start .new).perform nestedPass = .ok s ∧
    s.perform nestedPass = .ok s' ∧ s'.registry.components.size = 2 ∧
    s.momentsOf nestedPass ≠ [] ∧ ∀ m ∈ s.momentsOf nestedPass, m.Admits := by
  have hpasses : ((start .new).perform nestedPass).toOption.any (fun s =>
      (s.perform nestedPass).toOption.any fun s' => s'.registry.components.size == 2 &&
        !(s.momentsOf nestedPass).isEmpty && s.target.document.isLive 0 &&
        decide (Nests (s.momentsOf nestedPass))) = true := by decide +kernel
  have hroot : (start .new).Addresses nestedPass := rfl
  cases hs : (start .new).perform nestedPass with
  | error f =>
    rw [hs] at hpasses
    cases hpasses
  | ok s =>
    rw [hs] at hpasses
    cases hs' : s.perform nestedPass with
    | error f =>
      simp only [Except.toOption, Option.any_some, hs', Option.any_none] at hpasses
      cases hpasses
    | ok s' =>
      simp only [Except.toOption, Option.any_some, hs', Bool.and_eq_true, beq_iff_eq,
        Bool.not_eq_true', List.isEmpty_eq_false_iff, decide_eq_true_eq] at hpasses
      obtain ⟨⟨⟨hsize, hmoments⟩, hlive⟩, hnests⟩ := hpasses
      have haddressed : s.Addresses nestedPass := hlive
      exact ⟨s, s', rfl, hs', hsize, hmoments, fun m hm =>
        (calls_admitted (.act .start hroot hs) haddressed hnests m hm).1⟩

/-- A component that calls another one of its kind before it opens an element may meet itself, when
the pass is repeated. -/
example :
    let beside : Act := .pass ⟨"", .null, loggedText, true⟩ (.bracketed 0 .inner .keyed none
      (.component ⟨.counter, .text "a", "", "div", "", .opened⟩
        (.component ⟨.counter, .text "a", "", "div", "", .opened⟩ .done .done .done) .done .done))
    (match performAll [beside, beside] (start .new) with
      | .error (.reentered _) => true
      | _ => false) = true := by decide +kernel

end Session

end KeyedRender

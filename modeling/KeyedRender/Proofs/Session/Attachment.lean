import KeyedRender.Proofs.Render.Success
import KeyedRender.Proofs.Session.Reached
import KeyedRender.Proofs.Target.Attachment

/-!
# Attached components of a session

A slot and its component name each other in whatever state a session comes to, between passes and
in the middle of one. A component whose first call fails is not attached then, and nothing that
comes later attaches it.
-/
namespace KeyedRender

def RenderState.session {τ : Type} (m : RenderState τ) : Session τ :=
  ⟨m.renderer.pass.target, m.shared.registry⟩

namespace Session

/-- What a state may lead to, in the same pass or later: acts, calls of the target such as the
beginning or the end of a pass, scripts as far as they come, and the return of an outer call that
attaches its component, if it is one of those that may return. -/
inductive Leads (returning : ComponentId → Prop) (s : Session KeyedDom) : Session KeyedDom → Prop
  | here : Leads returning s s
  | act {s₁ s₂ : Session KeyedDom} {a : Act} : Leads returning s s₁ → s₁.perform a = .ok s₂ →
      Leads returning s s₂
  | call {s₁ s₂ : Session KeyedDom} {call : TargetCall} {node : Option NodeId} :
      Leads returning s s₁ → s₁.call call = .ok (node, s₂) → Leads returning s s₂
  | script {ctx : Context} {m m' : RenderState KeyedDom} {script : Script} :
      Leads returning s m.session → (script.run KeyedDom ctx m).EndsIn m' →
      Leads returning s m'.session
  | returned {ctx : Context} {m m' : RenderState KeyedDom} {id : ComponentId} {root : NodeId} :
      Leads returning s m.session → returning id →
      (RenderM.attach id root ctx m).EndsIn m' → Leads returning s m'.session

theorem Reached.leads {allowed : Session KeyedDom → Act → Prop} {returning : ComponentId → Prop}
    {s : Session KeyedDom} (h : Reached allowed s) : Leads returning (Session.start .new) s := by
  induction h with
  | start => exact .here
  | act _ _ hs ih => exact .act ih hs

variable {E : ComponentId → Prop} {I : Document → Registry → Prop}

theorem perform_keeps (h : SlotInvariant E I) {s : Session KeyedDom}
    (hi : I s.target.document s.registry) (a : Act) :
    Allows (fun _ => True) (fun s' => I s'.target.document s'.registry) (s.perform a) := by
  have edited : a.IsEdit →
      Allows (fun _ => True) (fun s' => I s'.target.document s'.registry) (s.perform a) :=
    fun ha => (edited_perform Document.Keeps.editing.reshaping.toRestructuring s ha).mono
      fun s' ⟨hkeeps, hregistry⟩ => hregistry ▸ h.within hi (.of_keeps hkeeps)
  cases a with
  | pass settings plan =>
    exact pass_of_meets (O := fun t g => I t.document g)
      (h.plan plan (context settings) s.initial rfl hi)
  | _ => exact edited trivial

theorem Leads.keeps (h : SlotInvariant E I) {s s' : Session KeyedDom}
    (hi : I s.target.document s.registry) (hs : Leads E s s') :
    I s'.target.document s'.registry := by
  induction hs with
  | here => exact hi
  | @act s₁ s₂ a _ hstep ih =>
    have hnext := perform_keeps h ih a
    rw [hstep] at hnext
    exact hnext
  | @call s₁ s₂ call node _ hstep ih =>
    have hcall : Allows (fun _ => True)
        (fun r : Option NodeId × Session KeyedDom => I r.2.target.document r.2.registry)
        (s₁.call call) := (h.call ih call).bind fun _ hr => hr
    rw [hstep] at hcall
    exact hcall
  | @script ctx m m' script _ hrun ih =>
    exact Outcome.Meets.of_endsIn (I := fun t g => I t.document g)
      (h.script script _ ctx m rfl ih) hrun
  | @returned ctx m m' id root _ hid hrun ih =>
    have hattach : Triple ⟨fun _ => True, m.renderer.layers.length, fun t g => I t.document g⟩
        (fun t g => I t.document g) (RenderM.attach id root) fun _ (t : KeyedDom) g =>
          I t.document g :=
      ((h.stable _).attach (k := 0) hid fun _ => trivial).constant
    exact Outcome.Meets.of_endsIn (I := fun t g => I t.document g) (hattach ctx m rfl ih) hrun

theorem linked_start : Linked (start KeyedDom.new).target.document (start KeyedDom.new).registry := by
  intro n s hs
  have hnone : KeyedDom.new.document.slot? n = none := Document.slot?_single _ n
  change KeyedDom.new.document.slot? n = some s at hs
  rw [hnone] at hs
  cases hs

theorem renderInstance_failing (h : SlotInvariant E I) (n : Nat) (id : ComponentId)
    (spec : ComponentSpec) (before body : Script) :
    Triple ⟨fun _ => True, n, fun t g => I t.document g⟩ (fun t g => I t.document g)
      (RenderM.renderInstance id spec (before.run KeyedDom) (body.run KeyedDom))
      fun _ _ _ => True := by
  have hs := h.stable n
  have hscript : ∀ script : Script,
      Triple ((SlotInvariant.scope E).exits n (fun _ t g => I t.document g) fun _ => True)
        (fun t g => I t.document g) (script.run KeyedDom) fun _ t g => I t.document g :=
    fun script => (h.script script n).failing fun _ _ hi => ⟨0, trivial, hi⟩
  have attached : ∀ node,
      Triple ((SlotInvariant.scope E).exits n (fun _ t g => I t.document g) fun _ => True)
        (fun t g => I t.document g) (RenderM.attach id node) fun _ _ _ => True := by
    intro node ctx m hl _
    by_cases hsome : m.renderer.layers.length = 0 ∧ ∃ c, m.shared.registry.component? id = some c
    · obtain ⟨hlayers, c, hc⟩ := hsome
      rw [Stable.attach_run hlayers hc]
      exact ⟨hl, trivial⟩
    · rw [Stable.attach_run_hidden fun h0 =>
        Option.eq_none_iff_forall_not_mem.2 fun c hc => hsome ⟨h0, c, hc⟩]
      exact ⟨hl, trivial⟩
  refine .constant (w := SlotInvariant.scope E) ?_
  refine .bind (Stable.quiet (k := 0) (Quiet.enqueue id)) fun _ => .bind .context fun ctx => ?_
  refine .breakIf (hs.reentered id) ?_
  refine .bind (hs.changeRegistry (k := 0) (·.extends_countRender id)) fun _ => ?_
  refine .bind (.withContext (hs.renderRoot (k := 0) (fun _ _ _ => trivial) (hscript before)
    (hscript body)) _) fun root => ?_
  cases root with
  | none => exact .pure fun _ _ _ => trivial
  | some node =>
    exact .bind ((attached node).pre fun _ _ hi => hi.1) fun _ => .pure fun _ _ _ => trivial

theorem unattached_of_failed {ctx : Context} {m m' : RenderState KeyedDom} {spec : ComponentSpec}
    {before body : Script} {e : RenderError}
    (hl : Linked m.renderer.pass.target.document m.shared.registry)
    (hfind : RenderM.findComponent? spec.type
      (Key.encode spec.first ++ m.renderer.currentKey) ctx m = .done none m)
    (hfail : RenderM.renderComponent spec (before.run KeyedDom) (body.run KeyedDom) ctx m =
      .failed e m') :
    Unattached m.shared.registry.components.size m'.renderer.pass.target.document
      m'.shared.registry := by
  -- A probe renders nothing, so that it cannot fail.
  have hkind : m.renderer.kind ≠ .probe := by
    intro hkind
    simp only [RenderM.renderComponent, RenderM.bind_run, RenderM.renderer, hkind, if_true] at hfail
    cases hfail
  obtain ⟨m₁, htarget, hlayers, hregistry, hrun⟩ : ∃ m₁ : RenderState KeyedDom,
      m₁.renderer.pass.target = m.renderer.pass.target ∧
      m₁.renderer.layers = m.renderer.layers ∧
      (∃ c, m₁.shared.registry = (m.shared.registry.create c).2) ∧
      RenderM.renderComponent spec (before.run KeyedDom) (body.run KeyedDom) ctx m =
        RenderM.renderInstance m.shared.registry.components.size spec (before.run KeyedDom)
          (body.run KeyedDom) ctx m₁ := by
    refine ⟨{ m with shared := { m.shared with registry := (m.shared.registry.create
      (.new spec.type (Key.encode spec.first ++ m.renderer.currentKey)
        (spec.label ++ "/" ++ ctx.injected.compactText))).2 } }, rfl, rfl, ⟨_, rfl⟩, ?_⟩
    simp only [RenderM.renderComponent, RenderM.bind_run, RenderM.renderer, if_neg hkind, hfind,
      Stable.createComponent_run]
  obtain ⟨c, hregistry⟩ := hregistry
  -- The new component comes after all those that the slots hold.
  have hstart : Unattached m.shared.registry.components.size m₁.renderer.pass.target.document
      m₁.shared.registry := by
    rw [htarget, hregistry]
    refine ⟨by simp [Registry.create], fun n s hs heq => ?_⟩
    obtain ⟨c', hc', -⟩ := hl n s hs
    exact absurd (Registry.lt_size_of_component? hc') (by rw [heq]; exact Nat.lt_irrefl _)
  have hmeets := renderInstance_failing (slotInvariant_unattached m.shared.registry.components.size)
    m₁.renderer.layers.length m.shared.registry.components.size spec before body ctx m₁ rfl hstart
  rw [← hrun, hfail] at hmeets
  exact hmeets.2

/-- Wherever a session has come to, the component in a slot keeps the node of the slot, under the
slot's tag and key, and no other slot holds it. And a component whose first call fails is not
attached, neither then nor in any state that follows. -/
theorem attachment_of_leads {s : Session KeyedDom} (h : Leads (fun _ => True) (start .new) s) :
    (∀ n slot, s.target.document.slot? n = some slot →
      (∃ c, s.registry.component? slot.component = some c ∧ c.node = some n ∧
        slot.tag = c.type.tag ∧ slot.key = c.key) ∧
      ∀ n' slot', s.target.document.slot? n' = some slot' → slot'.component = slot.component →
        n' = n) ∧
    ∀ (ctx : Context) (m m' : RenderState KeyedDom) (spec : ComponentSpec) (before body : Script)
      (e : RenderError), m.session = s →
      RenderM.findComponent? spec.type (Key.encode spec.first ++ m.renderer.currentKey) ctx m =
        .done none m →
      RenderM.renderComponent spec (before.run KeyedDom) (body.run KeyedDom) ctx m =
        .failed e m' →
      ∀ s', Leads (· ≠ s.registry.components.size) m'.session s' →
        ∀ n slot, s'.target.document.slot? n = some slot →
          slot.component ≠ s.registry.components.size := by
  have hlinked : Linked s.target.document s.registry :=
    h.keeps slotInvariant_linked linked_start
  refine ⟨fun n slot hs => ⟨hlinked n slot hs, fun n' slot' hs' heq => ?_⟩, ?_⟩
  · exact hlinked.unique hs hs' heq
  · rintro ctx m m' spec before body e rfl hfind hfail s' hlater
    have hlost : Unattached m.shared.registry.components.size m'.session.target.document
        m'.session.registry := unattached_of_failed hlinked hfind hfail
    exact (hlater.keeps (slotInvariant_unattached _) hlost).2

def plainSettings : Settings := ⟨"", .null, loggedText, true⟩

def counterSpec (first name : String) (root : RootForm) : ComponentSpec :=
  ⟨.counter, .text first, "", name, "", root⟩

def sharingPass : Act :=
  .pass plainSettings (.bracketed 0 .inner .keyed none
    (.component (counterSpec "a" "div" .opened) .done .done <|
      .component (counterSpec "b" "div" (.bare (some 1))) .done .done .done))

def unlogged : Script := .step (.verifyLogOnly true) .done

def failingCounter : RenderM KeyedDom (Option ComponentId) :=
  RenderM.renderComponent (counterSpec "c" "p" .opened) (Script.run .done KeyedDom)
    (unlogged.run KeyedDom)

def retryPass : Act :=
  .pass plainSettings (.bracketed 0 .inner .keyed none
    (.component (counterSpec "c" "p" .opened) .done .done .done))

/-- The second of two components on one root holds its slot alone. In the next pass a third one
fails, and in the one after that a fourth one is attached in its place. -/
theorem attachment_of_leads_counter : ∃ s₀ s m' s',
    (start .new).perform sharingPass = .ok s₀ ∧
    s₀.call (.beginPatch 0 .inner .keyed) = .ok (none, s) ∧
    s.target.document.slot? 1 = some ⟨"Counter", "1:b", 1⟩ ∧
    (∃ c, s.registry.component? 1 = some c ∧ c.node = some 1) ∧
    (∀ n slot, s.target.document.slot? n = some slot → slot.component = 1 → n = 1) ∧
    failingCounter (context plainSettings) s.initial = .failed .logOnlyWithoutLogger m' ∧
    m'.session.perform retryPass = .ok s' ∧
    s'.target.document.slot? 2 = some ⟨"Counter", "1:c", 3⟩ ∧
    ∀ n slot, s'.target.document.slot? n = some slot → slot.component ≠ 2 := by
  have hruns : (match (start .new).perform sharingPass with
    | .error _ => false
    | .ok s₀ => match s₀.call (.beginPatch 0 .inner .keyed) with
      | .error _ => false
      | .ok (node, s) => node.isNone &&
        s.target.document.slot? 1 = some ⟨"Counter", "1:b", 1⟩ && s.registry.components.size = 2 &&
        RenderM.findAttached? s.target.document s.registry .counter
          (Key.encode (.text "c") ++ s.initial.renderer.currentKey)
          (s.target.document.siblingsFrom s.target.pointer?) = none &&
        match failingCounter (context plainSettings) s.initial with
        | .failed e m' => e = .logOnlyWithoutLogger &&
          match m'.session.perform retryPass with
          | .ok s' => decide (s'.target.document.slot? 2 = some ⟨"Counter", "1:c", 3⟩)
          | .error _ => false
        | _ => false) = true := by decide +kernel
  cases hs₀ : (start .new).perform sharingPass with
  | error f => rw [hs₀] at hruns; cases hruns
  | ok s₀ =>
  simp only [hs₀] at hruns
  cases hs : s₀.call (.beginPatch 0 .inner .keyed) with
  | error f => rw [hs] at hruns; cases hruns
  | ok answered =>
  obtain ⟨node, s⟩ := answered
  simp only [hs, Bool.and_eq_true, Option.isNone_iff_eq_none, decide_eq_true_eq] at hruns
  obtain ⟨⟨⟨⟨rfl, hslot⟩, hsize⟩, hnone⟩, hruns⟩ := hruns
  cases hfail : failingCounter (context plainSettings) s.initial with
  | done a m' => rw [hfail] at hruns; cases hruns
  | broken f => rw [hfail] at hruns; cases hruns
  | failed e m' =>
  simp only [hfail, Bool.and_eq_true, decide_eq_true_eq] at hruns
  obtain ⟨rfl, hruns⟩ := hruns
  cases hs' : m'.session.perform retryPass with
  | error f => rw [hs'] at hruns; cases hruns
  | ok s' =>
  simp only [hs', decide_eq_true_eq] at hruns
  obtain ⟨hattached, hlost⟩ :=
    attachment_of_leads (.call (.act .here hs₀) hs : Leads (fun _ => True) (start .new) s)
  obtain ⟨⟨c, hc, hnode, -⟩, hunique⟩ := hattached 1 _ hslot
  have hfind : RenderM.findComponent? .counter (Key.encode (.text "c") ++
      s.initial.renderer.currentKey) (context plainSettings) s.initial = .done _ s.initial :=
    RenderM.findComponent?_run rfl ..
  have hlater := hlost _ _ m' (counterSpec "c" "p" .opened) .done unlogged _ rfl
    (hfind.trans (congrArg (Outcome.done · s.initial) hnone)) hfail s' (.act .here hs')
  rw [hsize] at hlater
  exact ⟨s₀, s, m', s', rfl, hs, hslot, ⟨c, hc, hnode⟩, hunique, hfail, hs', hruns, hlater⟩

end Session

end KeyedRender

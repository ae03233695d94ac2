import KeyedRender.Proofs.Target.Slots

/-!
# Content and components under stable conditions

Printing, comments and components keep stable conditions. Content that is turned into text is
written to a target of its own, where only new components are attached.
-/
namespace KeyedRender

open RenderTarget (apply document withDocument)

/-- A rendering that keeps every stable condition, given that its direct steps are allowed. -/
def Steady (allowed : Instruction → Prop) (r : Rendering) : Prop :=
  ∀ (τ : Type) [RenderTarget τ] (w : Scope τ) (n : Nat) (I : Condition τ),
    (∀ i, allowed i → w.step i) → (n = 0 → ∀ node, w.node node) → Stable w n (fun _ => I) →
    Triple ⟨w.fault, n, I⟩ I (r τ) fun _ => I

namespace Steady

variable {allowed : Instruction → Prop} {r : Rendering}

theorem above {τ : Type} [RenderTarget τ] (hr : Steady allowed r) {w : Scope τ} {n : Nat}
    {J : Nat → Condition τ} (h : Stable w n J) (ha : ∀ i, allowed i → w.step i) {m : Nat}
    (hm : m ≠ 0) (k : Nat) : Triple ⟨w.fault, m, J k⟩ (J k) (r τ) fun _ => J k :=
  hr τ w m (J k) ha (fun h0 => absurd h0 hm) (h.above hm k)

theorem withParameter (hr : Steady allowed r) (parameter : Option String) :
    Steady allowed fun σ => RenderM.withParameter parameter (r σ) :=
  fun τ _ w n I ha hn h => .withContext (hr τ w n I ha hn h) _

end Steady

namespace Triple

variable {τ : Type} [RenderTarget τ]

omit [RenderTarget τ] in
theorem constant {α : Type} {w : Scope τ} {n : Nat} {P I : Condition τ} {m : RenderM τ α}
    {Q : α → Condition τ} (h : Triple (w.exits n (fun _ => I) fun _ => True) P m Q) :
    Triple ⟨w.fault, n, I⟩ P m Q := h.failing (x := ⟨w.fault, n, I⟩) fun _ _ ⟨_, _, hp⟩ => hp

theorem bracketed {fault : Fault → Prop} {n : Nat} {P B I R O F : Condition τ} {root : NodeId}
    {mode : PatchMode} {rule : Key.MatchRule} {logger : Option LoggerId} {template : RenderM τ Unit}
    (hbegin : ∀ t g, P t g →
      Allows fault (fun r => B r.2 g) (apply (.beginPatch root mode rule) t))
    (htemplate : Triple ⟨fault, n, R⟩ B template fun _ => I)
    (hend : ∀ t g, I t g → Allows fault (fun r => O r.2 g) (apply .endPatch t))
    (hfailed : ∀ t g, R t g → Allows fault (fun r => F r.2 g) (apply .endPatch t)) :
    Triple ⟨fault, n, F⟩ P (RenderM.bracketed root mode rule logger template) fun _ => O := by
  refine .bind (.callTarget (Q := fun _ => B) hbegin) fun _ => ?_
  refine .bind (Quiet.setLogger logger).triple fun _ => ?_
  refine .bind (Triple.attempt (x := ⟨fault, n, F⟩) htemplate) fun result => ?_
  cases result with
  | ok a =>
    refine .bind (.callTarget (Q := fun _ => O) hend) fun _ => ?_
    exact .pure fun _ _ hp => hp
  | error e =>
    refine .bind (.callTarget (Q := fun _ => F) hfailed) fun _ => ?_
    exact .fail fun _ _ hp => hp

theorem patch {fault : Fault → Prop} {n : Nat} {P I O : Condition τ} {root : NodeId}
    {mode : PatchMode} {rule : Key.MatchRule} {logger : Option LoggerId} {template : RenderM τ Unit}
    (hbegin : ∀ t g, P t g →
      Allows fault (fun r => I r.2 g) (apply (.beginPatch root mode rule) t))
    (htemplate : Triple ⟨fault, n, I⟩ I template fun _ => I)
    (hend : ∀ t g, I t g → Allows fault (fun r => O r.2 g) (apply .endPatch t))
    (hflush : Triple ⟨fault, n, O⟩ O RenderM.flushQueue fun _ => O) :
    Triple ⟨fault, n, O⟩ P (RenderM.patch root mode rule logger template) fun _ => O :=
  .bind (bracketed hbegin htemplate hend hend) fun _ => hflush

end Triple

namespace Stable

variable {τ : Type} [RenderTarget τ] {w : Scope τ} {n k : Nat} {J : Nat → Condition τ}
  {L : Nat → Prop} {allowed : Instruction → Prop} {r : Rendering}

theorem write (h : Stable w n J) (ha : ∀ i, allowed i → w.step i) (hr : Steady allowed r)
    (hk : L k) :
    Triple (w.exits n J L) (J k) (RenderM.write r) fun _ => J k := by
  refine .bind (quiet Quiet.logger?) fun logger => ?_
  refine .bind (Q := fun _ => J k)
    (.detour fun t g hp => ⟨MarkupWriter.Fresh g, ?_, fun w' g' hf => ?_⟩)
    fun _ => .pure fun _ _ hp => hp
  · have hs := MarkupWriter.stable h.reentered w.step g
    have htemplate : Triple ⟨w.fault, 0, MarkupWriter.Fresh g⟩ (MarkupWriter.Fresh g)
        (r MarkupWriter) fun _ => MarkupWriter.Fresh g :=
      hr MarkupWriter _ 0 _ ha (fun _ _ => trivial) hs
    have hflush : Triple ⟨w.fault, 0, MarkupWriter.Fresh g⟩ (MarkupWriter.Fresh g)
        (RenderM.flushQueue (τ := MarkupWriter)) fun _ => MarkupWriter.Fresh g :=
      .flushQueue hs.reentered fun _ _ _ hp he => hs.grows (k := 0) hp he
    refine .patch (I := MarkupWriter.Fresh g) (fun w' g' hp => ?_) htemplate
      (fun w' g' hf => MarkupWriter.Fresh.step hf .endPatch) hflush
    · obtain ⟨rfl, rfl⟩ := hp
      have hstart : MarkupWriter.Fresh g' MarkupWriter.new g' := by
        refine ⟨.refl g', fun id s hs => ?_⟩
        have hnone : MarkupWriter.new.document.slot? id = none := Document.slot?_single _ id
        rw [hnone] at hs
        cases hs
      exact hstart.step (.beginPatch _ _ _)
  · have hp' := h.grows hp hf.1
    exact ⟨failed hk hp', fun _ => hp'⟩

theorem htmlText (h : Stable w n J) (ha : ∀ i, allowed i → w.step i) (hr : Steady allowed r)
    (hk : L k) :
    Triple (w.exits n J L) (J k) (RenderM.htmlText r) fun _ => J k :=
  .bind (h.write ha hr hk) fun _ => .pure fun _ _ hp => hp

theorem attributesText (h : Stable w n J) (ha : ∀ i, allowed i → w.step i)
    (hr : Steady allowed r) (hk : L k) :
    Triple (w.exits n J L) (J k) (RenderM.attributesText r) fun _ => J k := by
  have hframe : Steady allowed (fun σ _ => do
      let _ ← RenderM.openElement "div" ""
      r σ
      RenderM.emit .applyAttributes
      RenderM.emit .closeElement) := by
    intro σ _ w' m I ha' hn hs
    refine .constant (.bind (hs.openElement (k := 0) "div" "") fun _ => ?_)
    have hinner : Triple (w'.exits m (fun _ => I) fun _ => True) I (r σ) fun _ => I :=
      (hr σ w' m I ha' hn hs).failing fun _ _ hp => ⟨0, trivial, hp⟩
    refine .bind (hinner.pre fun _ _ hp => hp.1) fun _ => ?_
    exact .bind (hs.stays (k := 0) .applyAttributes trivial) fun _ => hs.emitClose (k := 0)
  refine .bind (h.write ha hframe hk) fun written => ?_
  split <;> exact .pure fun _ _ hp => hp

theorem renderedText (h : Stable w n J) (ha : ∀ i, allowed i → w.step i) (hr : Steady allowed r)
    (hk : L k) (kind : RenderedKind) :
    Triple (w.exits n J L) (J k) (RenderM.renderedText kind r) fun _ => J k := by
  cases kind with
  | html => exact h.htmlText ha hr hk
  | attributes => exact h.attributesText ha hr hk

theorem writeText (h : Stable w n J) (value : String) :
    Triple (w.exits n J L) (J k) (RenderM.text value) fun _ => J k :=
  (h.text value).post fun _ _ _ hp => hp.1

theorem printContent (h : Stable w n J) (value : Printable) :
    Triple (w.exits n J L) (J k) (RenderM.printContent value) fun _ => J k :=
  .bind (h.writeText _) fun _ => .pure fun _ _ hp => hp

theorem writeBlob (h : Stable w n J) (hn : n = 0) (node : NodeId) (markup : String) :
    Triple (w.exits n J L) (fun t g => J k t g ∧ w.fresh t node) (RenderM.writeBlob node markup)
      fun _ => J k := by
  refine .bind Quiet.targetDocument.triple fun d => ?_
  dsimp only
  split
  · refine .bind (.emit (Q := fun t g => J k t g ∧ w.fresh t node)
      (fun hn _ _ hp => h.filled hn markup hp.1 hp.2) fun hn' => absurd hn hn') fun _ => ?_
    exact h.changeRecord hn fun _ => rfl
  · exact .pure fun _ _ hp => hp.1

theorem print (h : Stable w n J) (value : Printable) :
    Triple (w.exits n J L) (J k) (RenderM.print value) fun _ => J k := by
  cases value with
  | sanitizedHtml markup =>
    simp only [RenderM.print]
    split
    · refine .bind (h.openElement "html-blob" "") fun blob => ?_
      have close : Triple (w.exits n J L) (J (inside n k)) (do
          RenderM.emit .skip
          RenderM.emit .closeElement) fun _ => J k :=
        .bind (h.stays .skip trivial) fun _ => h.emitClose
      cases blob with
      | none => exact close.pre fun _ _ hp => hp.1
      | some node =>
        refine .assuming (fun _ _ hp => (hp.2 node rfl).1) fun hn => ?_
        refine .bind ((h.writeBlob hn node markup).pre fun _ _ hp => ?_) fun _ => close
        exact ⟨hp.1, (hp.2 node rfl).2.1⟩
    · exact h.printContent _
  | _ => exact h.printContent _

theorem current? : Triple (w.exits n J L) (J k) RenderM.current? fun a t g => J k t g ∧
    ∀ node, a = some node → n = 0 ∧ RenderTarget.current? t = some node := by
  refine .bind_renderer fun r hr => .pure fun t g hp => ⟨hp.2, fun node ha => ?_⟩
  obtain ⟨target, htarget, hnode⟩ := Option.bind_eq_some_iff.1 ha
  obtain ⟨hlayers, rfl⟩ := Renderer.target?_eq_some_iff.1 htarget
  exact ⟨hr.symm.trans hlayers, hp.1 ▸ hnode⟩

theorem comment (h : Stable w n J) (value : String) :
    Triple (w.exits n J L) (J k) (RenderM.comment value) fun _ => J k := by
  refine .bind current? fun element => ?_
  cases element with
  | none => exact .pure fun _ _ hp => hp.1
  | some element =>
    refine .bind Quiet.targetDocument.triple fun d => ?_
    have skipped : Triple (w.exits n J L) (J k) (RenderM.emit .skipNode) fun _ => J k :=
      h.stays .skipNode trivial
    dsimp only
    split
    · next existing _ =>
      exact .bind ((h.stays (.setComment existing value) trivial).pre fun _ _ hp => hp.1)
        fun _ => skipped
    · refine .bind (.emit (Q := J k) (fun hn _ _ hp => ?_) fun _ _ _ hp => hp.1) fun _ => skipped
      exact h.appended hn value hp.1 (hp.2 element rfl).2

theorem setAttributes (h : Stable w n J) (attributes : List (String × String)) :
    Triple (w.exits n J L) (J k) (RenderM.setAttributes attributes) fun _ => J k := by
  induction attributes with
  | nil => exact .pure fun _ _ hp => hp
  | cons a rest ih => exact .bind (h.setAttribute _ _) fun _ => ih

theorem printAttributes (h : Stable w n J) (sanitized : Bool) (markup : String) (filter : Filter) :
    Triple (w.exits n J L) (J k) (RenderM.printAttributes sanitized markup filter) fun _ => J k :=
  h.setAttributes _

section Calls

variable (h : Stable w n J) (ha : ∀ i, allowed i → w.step i) (hr : Steady allowed r) (hk : L k)
include h ha hr hk

theorem callHtml (kind : RenderedKind) (hin : Triple (w.exits n J L) (J k) (r τ) fun _ => J k) :
    Triple (w.exits n J L) (J k) (RenderM.callHtml kind r) fun _ => J k := by
  cases kind with
  | html => exact hin
  | attributes =>
    exact .bind (h.attributesText ha hr hk) fun _ => .bind (h.writeText _) fun _ =>
      .pure fun _ _ hp => hp

theorem callAttributes (kind : RenderedKind) (filter : Filter)
    (hin : Triple (w.exits n J L) (J k) (r τ) fun _ => J k) :
    Triple (w.exits n J L) (J k) (RenderM.callAttributes kind r filter) fun _ => J k := by
  cases kind with
  | attributes => exact hin
  | html => exact .bind (h.htmlText ha hr hk) fun _ => h.printAttributes _ _ _

theorem callText (kind : RenderedKind) (escaper : Option Filter) :
    Triple (w.exits n J L) (J k) (RenderM.callText kind r escaper) fun _ => J k :=
  .bind (h.renderedText ha hr hk kind) fun _ => .pure fun _ _ hp => hp

theorem printRendered (kind : RenderedKind) (filter : Filter)
    (hin : Triple (w.exits n J L) (J k) (r τ) fun _ => J k) :
    Triple (w.exits n J L) (J k) (RenderM.printRendered kind r filter) fun _ => J k := by
  cases kind with
  | attributes => exact hin
  | html => exact .bind (h.htmlText ha hr hk) fun _ => h.printAttributes _ _ _

end Calls

section Components

theorem findComponent? (h : Stable w n J) (type : ComponentType) (key : String) :
    Triple (w.exits n J L) (J k) (RenderM.findComponent? type key) fun a t g => J k t g ∧
      ∀ id, a = some id → w.component id := by
  refine .bind_state fun s hs => ?_
  cases htarget : s.renderer.target? with
  | none => exact .pure fun _ _ hp => ⟨hp.2.2, by simp⟩
  | some target =>
    obtain ⟨hlayers, rfl⟩ := Renderer.target?_eq_some_iff.1 htarget
    have hn : n = 0 := hs.symm.trans hlayers
    refine .pure fun t g hp => ⟨hp.2.2, fun id hid => ?_⟩
    rw [← hp.1, ← hp.2.1] at hid
    exact h.found hn hp.2.2 hid

omit [RenderTarget τ] in
theorem createComponent_run (type : ComponentType) (key label : String) (ctx : Context)
    (s : RenderState τ) :
    RenderM.createComponent type key label ctx s = .done s.shared.registry.components.size
      { s with shared := { s.shared with registry := (s.shared.registry.create
        (.new type key (label ++ "/" ++ ctx.injected.compactText))).2 } } := rfl

theorem createComponent (h : Stable w n J) (type : ComponentType) (key label : String) :
    Triple (w.exits n J L) (J k) (RenderM.createComponent type key label) fun id t g =>
      J k t g ∧ w.component id := by
  refine .bind .context fun ctx => .bind_state fun s _ => ?_
  refine .bind (Q := fun _ t g => J k t g ∧ w.component s.shared.registry.components.size)
    (.changeRegistry fun t g hp => ?_) fun _ => .pure fun _ _ hp => hp
  obtain ⟨-, rfl, hp⟩ := hp
  exact ⟨h.grows hp (Registry.extends_create _ _), h.created hp⟩

theorem attach_run {ctx : Context} {s : RenderState τ} (hs : s.renderer.layers.length = 0)
    {id : ComponentId} {c : Component} (hc : s.shared.registry.component? id = some c)
    (root : NodeId) :
    RenderM.attach id root ctx s = .done () ⟨s.renderer.setTarget (withDocument s.renderer.pass.target
      (attachedDocument (document s.renderer.pass.target) id c root)),
      { s.shared with
        registry :=
          attachedRegistry (document s.renderer.pass.target) s.shared.registry id c root }⟩ := by
  have htarget : s.renderer.target? = some s.renderer.pass.target :=
    Renderer.target?_eq_some_iff.2 ⟨hs, rfl⟩
  simp only [RenderM.attach, RenderM.bind_run, RenderM.state, htarget, hc, RenderM.changeRenderer]
  unfold attachedRegistry attachedDocument
  split <;> rfl

theorem attach_run_hidden {ctx : Context} {s : RenderState τ} {id : ComponentId}
    (h : s.renderer.layers.length = 0 → s.shared.registry.component? id = none) (root : NodeId) :
    RenderM.attach id root ctx s = .done () s := by
  simp only [RenderM.attach, RenderM.bind_run, RenderM.state]
  cases htarget : s.renderer.target? with
  | none => rfl
  | some target =>
    rw [h (Renderer.target?_eq_some_iff.1 htarget).1]
    rfl

theorem attach (h : Stable w n J) {id : ComponentId} (hid : w.component id) {root : NodeId}
    (hroot : n = 0 → w.node root) :
    Triple (w.exits n J L) (J k) (RenderM.attach id root) fun _ => J k := by
  intro ctx s hl hp
  have hl : s.renderer.layers.length = n := hl
  by_cases hsome : s.renderer.layers.length = 0 ∧ ∃ c, s.shared.registry.component? id = some c
  · obtain ⟨hlayers, c, hc⟩ := hsome
    have hn : n = 0 := hl.symm.trans hlayers
    rw [attach_run hlayers hc]
    exact ⟨hl, h.attached hn hp hid (hroot hn) hc⟩
  · rw [attach_run_hidden fun h0 => Option.eq_none_iff_forall_not_mem.2 fun c hc => hsome ⟨h0, c, hc⟩]
    exact ⟨hl, hp⟩

theorem renderRoot (h : Stable w n J) {spec : ComponentSpec} {before body : RenderM τ Unit}
    (hgiven : ∀ node, spec.root.given? = some node → n = 0 → w.node node)
    (hbefore : Triple (w.exits n J L) (J k) before fun _ => J k)
    (hbody : Triple (w.exits n J L) (J (inside n k)) body fun _ => J (inside n k)) :
    Triple (w.exits n J L) (J k) (RenderM.renderRoot spec before body) fun a t g => J k t g ∧
      ∀ node, a = some node → n = 0 → w.node node := by
  refine .bind hbefore fun _ => ?_
  -- However the form chooses it, the node that is given back may be one.
  have element : ∀ root : Option NodeId → Option NodeId,
      (∀ opened, (∀ node, opened = some node → w.node node) →
        ∀ node, root opened = some node → n = 0 → w.node node) →
      Triple (w.exits n J L) (J k) (do
        let opened ← RenderM.openElement spec.name spec.key
        body
        RenderM.emit .closeElement
        return root opened) fun a t g => J k t g ∧ ∀ node, a = some node → n = 0 → w.node node := by
    intro root hroot
    refine .bind (h.openElement _ _) fun opened => ?_
    refine .assuming (c := ∀ node, opened = some node → w.node node)
      (fun _ _ hp node hnode => (hp.2 node hnode).2.2) fun hopened => ?_
    refine .bind (hbody.pre fun _ _ hp => hp.1) fun _ => .bind h.emitClose fun _ => ?_
    exact .pure fun _ _ hp => ⟨hp, hroot opened hopened⟩
  cases hform : spec.root with
  | text => exact (h.text _).post fun _ _ _ hp => ⟨hp.1, fun node ha _ => hp.2 node ha⟩
  | opened => exact element id fun _ hopened node hnode _ => hopened node hnode
  | none => exact element (fun _ => none) fun _ _ _ hnode => by cases hnode
  | given node =>
    refine element (fun _ => some node) fun _ _ node' hnode => ?_
    exact hgiven node' (by rw [hform]; exact hnode)
  | bare node =>
    exact .pure fun _ _ hp => ⟨hp, fun node' hnode => hgiven node' (by rw [hform]; exact hnode)⟩

section Rendered

variable {spec : ComponentSpec} {before body : RenderM τ Unit} (h : Stable w n J)
  (hgiven : ∀ node, spec.root.given? = some node → n = 0 → w.node node)
  (hbefore : Triple (w.exits n J L) (J k) before fun _ => J k)
  (hbody : Triple (w.exits n J L) (J (inside n k)) body fun _ => J (inside n k))
include h hgiven hbefore hbody

theorem renderInstance {id : ComponentId} (hid : w.component id) :
    Triple (w.exits n J L) (J k) (RenderM.renderInstance id spec before body) fun _ => J k := by
  refine .bind (quiet (Quiet.enqueue id)) fun _ => .bind .context fun ctx => ?_
  refine .breakIf (h.reentered id) ?_
  refine .bind (h.changeRegistry (·.extends_countRender id)) fun _ => ?_
  refine .bind (.withContext (h.renderRoot hgiven hbefore hbody) _) fun root => ?_
  cases root with
  | none => exact .pure fun _ _ hp => hp.1
  | some node =>
    refine .assuming (fun _ _ hp => hp.2 node rfl) fun hnode => ?_
    exact .bind ((h.attach hid hnode).pre fun _ _ hp => hp.1) fun _ => .pure fun _ _ hp => hp

theorem renderComponent :
    Triple (w.exits n J L) (J k) (RenderM.renderComponent spec before body) fun _ => J k := by
  refine .bind_renderer fun r _ => ?_
  split
  · refine .bind Quiet.markRendered.triple fun _ => ?_
    exact .pure fun _ _ hp => hp.2
  · refine .bind ((h.findComponent? _ _).pre fun _ _ hp => hp.2) fun found => ?_
    cases found with
    | some id =>
      refine .assuming (fun _ _ hp => hp.2 id rfl) fun hid => ?_
      exact (h.renderInstance hgiven hbefore hbody hid).pre fun _ _ hp => hp.1
    | none =>
      refine .bind ((h.createComponent _ _ _).pre fun _ _ hp => hp.1) fun id => ?_
      refine .assuming (fun _ _ hp => hp.2) fun hid => ?_
      exact (h.renderInstance hgiven hbefore hbody hid).pre fun _ _ hp => hp.1

end Rendered

theorem introduce (h : Stable w n J) (id : ComponentId) :
    Triple (w.exits n J L) (J k) (RenderM.introduce id) fun _ => J k :=
  .bind (h.changeRegistry (·.extends_learn id)) fun _ => .bind (quiet Quiet.state) fun _ =>
    .pure fun _ _ hp => hp

end Components

end Stable

end KeyedRender

import KeyedRender.Proofs.Script.Attributes
import KeyedRender.Proofs.Script.Traces
import KeyedRender.Proofs.Target.Serializing

/-!
# Attributes as text

Content that is turned into the text of its attributes is written into a new element. Steps that set
attributes leave the values that they set last; text goes into the element, and keys and logging
leave it alone. So the text is the line of the final values.
-/
namespace KeyedRender

namespace MarkupWriter

open Document (Tip Writes)
open RenderM (bind_run pure_run)

variable {w : MarkupWriter} {logger : Option LoggerId} {ctx : Context}
  {s t : RenderState MarkupWriter} {d : Document} {top : NodeId} {outer : List NodeId}

structure On (w : MarkupWriter) (logger : Option LoggerId) (s : RenderState MarkupWriter) :
    Prop where
  layers : s.renderer.layers = []
  target : s.renderer.pass.target = w
  logger : s.renderer.pass.logger = logger
  queue : s.renderer.pass.queue = []

theorem On.logger? (h : On w logger s) : s.renderer.logger? = logger := by
  rw [Renderer.logger?, h.layers]
  exact h.logger

theorem On.shared (h : On w logger s) (shared : Shared) : On w logger { s with shared := shared } :=
  ⟨h.layers, h.target, h.logger, h.queue⟩

theorem On.callTarget (h : On w logger s) (ctx : Context) (call : TargetCall) :
    ∃ t, RenderM.callTarget call ctx s = .done (w.step call).1 t ∧ On (w.step call).2 logger t := by
  have happly : RenderTarget.apply call s.renderer.pass.target = .ok (w.step call) := by
    rw [h.target]
    rfl
  obtain ⟨log, hcall⟩ := RenderM.callTarget_run ctx happly
  exact ⟨_, hcall, h.layers, rfl, h.logger, h.queue⟩

theorem On.emit? (h : On w logger s) (ctx : Context) (call : TargetCall) :
    ∃ t, RenderM.emit? call ctx s = .done (w.step call).1 t ∧ On (w.step call).2 logger t := by
  rw [RenderM.emit?_run (by rw [h.layers]; rfl)]
  exact h.callTarget ctx call

theorem On.emit (h : On w logger s) (ctx : Context) (call : TargetCall) :
    ∃ t, RenderM.emit call ctx s = .done () t ∧ On (w.step call).2 logger t := by
  obtain ⟨t, ht, hon⟩ := h.emit? ctx call
  exact ⟨t, by simp only [RenderM.emit, bind_run, ht, pure_run], hon⟩

theorem On.changeKeys (h : On w logger s) (change : Key.Stack → Key.Stack) :
    On w logger { s with renderer := s.renderer.changeKeys change } := by
  have hkeys : s.renderer.changeKeys change =
      { s.renderer with pass := { s.renderer.pass with keys := change s.renderer.pass.keys } } := by
    simp only [Renderer.changeKeys, h.layers]
  exact ⟨by rw [hkeys]; exact h.layers, by rw [hkeys]; exact h.target,
    by rw [hkeys]; exact h.logger, by rw [hkeys]; exact h.queue⟩

theorem On.setLogger (h : On w logger s) (new : Option LoggerId) :
    On w new { s with renderer := s.renderer.setLogger new } := by
  have hlogger : s.renderer.setLogger new =
      { s.renderer with pass := { s.renderer.pass with logger := new } } := by
    simp only [Renderer.setLogger, h.layers]
  exact ⟨by rw [hlogger]; exact h.layers, by rw [hlogger]; exact h.target, by rw [hlogger],
    by rw [hlogger]; exact h.queue⟩

theorem On.callLogger (h : On w logger s) (ctx : Context) (call : LoggerCall) :
    ∃ t, RenderM.callLogger call ctx s = .done () t ∧ On w logger t := by
  simp only [RenderM.callLogger, bind_run, RenderM.logger?, RenderM.renderer, pure_run, h.logger?]
  cases logger with
  | none => exact ⟨s, rfl, h⟩
  | some logger => exact ⟨_, rfl, h.shared _⟩

theorem On.evaluateLogging (h : On w logger s) (ctx : Context) (name : String)
    (arguments : List Payload) (placeholder : String) :
    ∃ value t, RenderM.evaluateLogging name arguments placeholder ctx s = .done value t ∧
      On w logger t := by
  simp only [RenderM.evaluateLogging, bind_run, RenderM.logger?, RenderM.renderer, pure_run,
    h.logger?]
  cases logger with
  | none => exact ⟨placeholder, s, rfl, h⟩
  | some logger => exact ⟨_, _, rfl, h.shared _⟩

theorem On.verifyLogOnly (h : On w logger s) (ctx : Context) {logOnly : Bool}
    (hlogger : logOnly = true → logger.isSome = true) :
    RenderM.verifyLogOnly logOnly ctx s = .done logOnly s := by
  have hkind : s.renderer.kind = .default := by rw [Renderer.kind, h.layers]
  have hallowed : (logOnly && logger.isNone) = false := by
    cases logOnly with
    | false => rfl
    | true => simpa [Option.isSome_iff_ne_none] using hlogger rfl
  simp only [RenderM.verifyLogOnly, bind_run, RenderM.renderer, hkind, h.logger?, hallowed]
  rfl

theorem On.text (hs : On ⟨d, top :: outer⟩ logger s) (hd : d.Tip top) (ctx : Context)
    (value : String) :
    ∃ node t d', RenderM.text value ctx s = .done node t ∧
      d.Writes top [] [.text value] d' ∧ On ⟨d', top :: outer⟩ logger t := by
  obtain ⟨t, ht, hon⟩ := hs.emit? ctx (.text value)
  obtain ⟨d', hwrites, heq⟩ := Wrote.appendText hd value s.shared.registry
  have htarget : (MarkupWriter.step (.text value) ⟨d, top :: outer⟩).2 = ⟨d', top :: outer⟩ := heq
  rw [htarget] at hon
  exact ⟨_, t, d', ht, hwrites, hon⟩

theorem On.setAttribute (hs : On w logger s) (ctx : Context) (name value : String) :
    ∃ t, RenderM.setAttribute name value ctx s = .done () t ∧
      On (w.setAttribute name value) logger t := by
  obtain ⟨t, ht, hon⟩ := hs.emit ctx (.setAttribute name value)
  simp only [RenderM.setAttribute, bind_run, ht]
  split
  · exact hon.emit ctx _
  · split
    · exact hon.emit ctx _
    · exact ⟨t, rfl, hon⟩

theorem perform_decorates {i : Instruction} (hi : i.Decorates logger)
    (hs : On ⟨d, top :: outer⟩ logger s) (hd : d.Tip top) (ctx : Context) :
    ∃ a t d' trees, i.perform ctx s = .done a t ∧ d.Writes top i.settings trees d' ∧
      On ⟨d', top :: outer⟩ (i.loggerAfter logger) t := by
  have hnil := hd.writes_nil
  cases i with
  | setAttribute name value =>
    obtain ⟨t, ht, hon⟩ := hs.setAttribute ctx name value
    exact ⟨none, t, _, [], by simp only [Instruction.perform, bind_run, ht, pure_run],
      Writes.setAttribute hd name value, hon⟩
  | applyStatics attributes =>
    obtain ⟨t, ht, hon⟩ := hs.emit ctx (.applyStatics attributes)
    obtain ⟨d', hwrites, heq⟩ := Wrote.setAttributes hd attributes s.shared.registry
    have htarget :
        (MarkupWriter.step (.applyStatics attributes) ⟨d, top :: outer⟩).2 = ⟨d', top :: outer⟩ :=
      heq
    rw [htarget] at hon
    exact ⟨none, t, d', [],
      by simp only [Instruction.perform, bind_run, ht, pure_run], hwrites, hon⟩
  | text value =>
    obtain ⟨node, t, d', ht, hwrites, hon⟩ := hs.text hd ctx value
    exact ⟨some (.node node), t, d', _,
      by simp only [Instruction.perform, bind_run, ht, pure_run], hwrites, hon⟩
  | parameter =>
    obtain ⟨node, t, d', ht, hwrites, hon⟩ := hs.text hd ctx ctx.parameter
    exact ⟨some (.node node), t, d', _,
      by simp only [Instruction.perform, bind_run, RenderM.context, ht, pure_run], hwrites, hon⟩
  | injected =>
    obtain ⟨node, t, d', ht, hwrites, hon⟩ := hs.text hd ctx ctx.injected.compactText
    exact ⟨some (.node node), t, d', _,
      by simp only [Instruction.perform, bind_run, RenderM.context, ht, pure_run], hwrites, hon⟩
  | pushKey fragment => exact ⟨_, _, d, [], rfl, hnil, (hs.changeKeys _).shared _⟩
  | popKey previous =>
    cases previous with
    | none => exact ⟨_, _, d, [], rfl, hnil, (hs.shared _).changeKeys _⟩
    | some previous => exact ⟨_, _, d, [], rfl, hnil, hs.changeKeys _⟩
  | newKey fragment => exact ⟨_, _, d, [], rfl, hnil, hs⟩
  | currentKey => exact ⟨_, _, d, [], rfl, hnil, hs⟩
  | pushManualKey fragment => exact ⟨_, _, d, [], rfl, hnil, hs.changeKeys _⟩
  | popManualKey => exact ⟨_, _, d, [], rfl, hnil, hs.changeKeys _⟩
  | enter element logOnly =>
    obtain ⟨t, ht, hon⟩ := hs.callLogger ctx (.enter (.ofElement element logOnly))
    exact ⟨none, t, d, [],
      by simp only [Instruction.perform, RenderM.enter, bind_run, ht, pure_run], hnil, hon⟩
  | exit =>
    obtain ⟨t, ht, hon⟩ := hs.callLogger ctx .exit
    exact ⟨none, t, d, [],
      by simp only [Instruction.perform, RenderM.exit, bind_run, ht, pure_run], hnil, hon⟩
  | logger => exact ⟨_, _, d, [], rfl, hnil, hs⟩
  | setLogger new => exact ⟨_, _, d, [], rfl, hnil, hs.setLogger new⟩
  | evaluateLogging name arguments placeholder =>
    obtain ⟨value, t, ht, hon⟩ := hs.evaluateLogging ctx name arguments placeholder
    exact ⟨some (.text value), t, d, [],
      by simp only [Instruction.perform, bind_run, ht, pure_run], hnil, hon⟩
  | verifyLogOnly logOnly =>
    have ht := hs.verifyLogOnly ctx hi
    exact ⟨some (.flag logOnly), s, d, [],
      by simp only [Instruction.perform, bind_run, ht, pure_run], hnil, hs⟩
  | _ => exact hi.elim

/-- What is set by the steps of a script is set one after the other on the open element. -/
theorem run_decorates {script : Script} (h : script.Decorates logger)
    (hs : On ⟨d, top :: outer⟩ logger s) (hd : d.Tip top) (ctx : Context) :
    ∃ t d' trees last, script.run MarkupWriter ctx s = .done () t ∧
      d.Writes top script.settings trees d' ∧ On ⟨d', top :: outer⟩ last t := by
  induction h generalizing d s with
  | done => exact ⟨s, d, [], _, rfl, hd.writes_nil, hs⟩
  | @step logger i next hi _ ih =>
    obtain ⟨a, u, d₁, trees, hperform, hstep, hu⟩ := perform_decorates hi hs hd ctx
    obtain ⟨v, hanswer, hv⟩ : ∃ v, RenderM.answer (.instruction i) a ctx u = .done () v ∧
        On ⟨d₁, top :: outer⟩ (i.loggerAfter logger) v := by
      cases a with
      | none => exact ⟨u, rfl, hu⟩
      | some a => exact ⟨_, rfl, hu.shared _⟩
    obtain ⟨t, d', more, last, hrun, hnext, ht⟩ := ih hv (hstep.tip hd)
    exact ⟨t, d', _, last, by simp only [Script.run, bind_run, hperform, hanswer, hrun],
      hstep.trans hnext, ht⟩

theorem On.flushQueue (h : On w logger s) (ctx : Context) :
    ∃ t, RenderM.flushQueue ctx s = .done () t ∧ On w logger t := by
  refine ⟨{ s with renderer := s.renderer.clearQueue }, ?_, h.layers, h.target, h.logger, rfl⟩
  simp only [RenderM.flushQueue, bind_run, RenderM.renderer, RenderM.changeRenderer, h.queue]
  rfl

theorem On.openElement (hs : On ⟨d, top :: outer⟩ logger s) (hd : d.Tip top) (ctx : Context)
    (name key : String) :
    ∃ node t d₁, RenderM.openElement name key ctx s = .done node t ∧ d₁.Tip d.size ∧
      On ⟨d₁, d.size :: top :: outer⟩ logger t ∧
      ∀ {settings trees d'}, d₁.Writes d.size settings trees d' →
        d.Writes top [] [.element name (settled settings) none trees] d' := by
  obtain ⟨e, he⟩ := hd.element
  have hrun : RenderM.openElement name key ctx s = _ :=
    RenderM.openElement_run (by rw [hs.layers]; rfl) name key
  obtain ⟨t, ht, hon⟩ := hs.callTarget ctx
    (.openElement name (Key.encode (.text key) ++ s.renderer.currentKey))
  have htarget : (MarkupWriter.step (.openElement name
      (Key.encode (.text key) ++ s.renderer.currentKey)) ⟨d, top :: outer⟩).2 = _ :=
    openElement_eq he name
  rw [htarget] at hon
  refine ⟨_, t, _, hrun.trans ht, hd.adopt he name, hon, fun hwrites => ?_⟩
  rw [← assignEach_nil]
  exact .element he hwrites

theorem patch_decorates {script : Script} (h : script.Decorates logger) (ctx : Context)
    (shared : Shared) :
    ∃ t d' trees, RenderM.patch root .inner .keyed logger
        (enclosed .attributes (fun σ _ => script.run σ) MarkupWriter) ctx
        ⟨.start .new, shared⟩ = .done () t ∧
      (Document.single "div").Writes root []
        [.element "div" (settled script.settings) none trees] d' ∧
      t.renderer.pass.target = ⟨d', [root]⟩ := by
  have hstart : On .new none ⟨.start .new, shared⟩ := ⟨rfl, rfl, rfl, rfl⟩
  have htip : (Document.single "div").Tip root :=
    ⟨Document.isTree_single "div", ⟨_, rfl⟩, rfl⟩
  obtain ⟨s₁, hbegin, hon⟩ := hstart.callTarget ctx (.beginPatch root .inner .keyed)
  have hready : On ⟨.single "div", [root]⟩ logger
      { s₁ with renderer := s₁.renderer.setLogger logger } := hon.setLogger logger
  obtain ⟨node, s₂, d₁, hopen, htip₁, hon₂, helement⟩ := hready.openElement htip ctx "div" ""
  obtain ⟨s₃, d', trees, last, hrun, hwrites, hon₃⟩ := run_decorates h hon₂ htip₁ ctx
  obtain ⟨s₄, happly, hon₄⟩ := hon₃.emit ctx .applyAttributes
  obtain ⟨s₅, hclose, hon₅⟩ := hon₄.emit ctx .closeElement
  obtain ⟨s₆, hend, hon₆⟩ := hon₅.callTarget ctx .endPatch
  obtain ⟨t, hflush, hont⟩ := hon₆.flushQueue ctx
  refine ⟨t, d', trees, ?_, helement hwrites, hont.target⟩
  simp only [RenderM.patch, RenderM.bracketed, RenderM.setLogger, RenderM.changeRenderer,
    RenderM.attempt, enclosed, RenderM.resume, bind_run, pure_run, hbegin, hopen, hrun, happly,
    hclose, hend, hflush]

theorem writtenText_attributes {settings : List (String × String)} {trees : List Markup.Tree}
    (h : (Document.single "div").Writes root []
      [.element "div" (settled settings) none trees] d) :
    writtenText .attributes ⟨d, [root]⟩ = RenderM.attributesLine (settled settings) := by
  obtain ⟨ids, hroot, hspells⟩ := h.written (.new "div" "") rfl
  obtain ⟨id, e, rfl, he, hattributes⟩ := hspells.single_element
  have hfirst : (d.children root).head? = some id := by
    rw [Document.children_of_element? hroot]
    rfl
  have hread : d.attributes id = settled settings := by
    rw [Document.attributes, he, Option.map_some, Option.getD_some, hattributes]
  simp only [writtenText, hfirst, hread]

end MarkupWriter

namespace RenderM

variable {τ σ : Type} [RenderTarget τ] [RenderTarget σ] {script other : Script}

theorem attributesText_run {s : RenderState τ} (h : script.Decorates s.renderer.logger?)
    (ctx : Context) :
    ∃ t, attributesText (fun σ _ => script.run σ) ctx s =
      .done (attributesLine (settled script.settings)) t := by
  obtain ⟨t, d', trees, hpatch, hwrites, htarget⟩ := MarkupWriter.patch_decorates h
    { ctx with watched := false, pinned := s.renderer.held ++ ctx.pinned } s.shared
  have htext := MarkupWriter.writtenText_attributes hwrites
  have heq : attributesText (τ := τ) (fun σ _ => script.run σ) =
      (write (enclosed .attributes fun σ _ => script.run σ) >>= fun w =>
        pure (writtenText .attributes w)) := renderedText_eq .attributes _
  refine ⟨{ s with shared := t.shared }, ?_⟩
  rw [heq]
  simp only [write, bind_run, logger?, renderer, detour, pure_run, hpatch, htarget, htext]

/-- Two scripts that leave the same final values give the same text, whatever they set before, in
whatever order and between whatever text, keys and logging, on any renderers. -/
theorem attributesText_eq_of_finalValues (ctx ctx' : Context) {s : RenderState τ}
    {s' : RenderState σ} (h : script.Decorates s.renderer.logger?)
    (h' : other.Decorates s'.renderer.logger?)
    (hsame : ∀ name, finalValue? script.settings name = finalValue? other.settings name) :
    ∃ line entries t t',
      attributesText (fun σ _ => script.run σ) ctx s = .done line t ∧
      attributesText (fun σ _ => other.run σ) ctx' s' = .done line t' ∧
      IsAttributesLine script.settings line entries := by
  obtain ⟨entries, hline⟩ := isAttributesLine_settled script.settings
  obtain ⟨t, ht⟩ := attributesText_run h ctx
  obtain ⟨t', ht'⟩ := attributesText_run h' ctx'
  rw [← attributesLine_perm (perm_settled hsame)] at ht'
  exact ⟨_, entries, t, t', ht, ht', hline⟩

def plainly : Script :=
  .step (.setAttribute "class" "b") <| .step (.applyStatics [("id", "x")]) .done

/-- The same values at last, with a value set before, text, a key, and something that is logged. -/
def roundabout : Script :=
  .step (.applyStatics [("class", "a"), ("id", "x")]) <| .step (.text "between") <|
    .step (.pushKey (.text "k")) <| .step (.setLogger (some 1)) <| .step (.verifyLogOnly true) <|
    .step (.setAttribute "class" "b") <| .step (.popKey none) .done

theorem attributesText_eq_of_finalValues_roundabout :
    plainly.Decorates none ∧ roundabout.Decorates none ∧
      ∀ (ctx : Context) (s : RenderState KeyedDom), s.renderer.logger? = none →
        ∃ t t', attributesText (fun σ _ => plainly.run σ) ctx s = .done "class=b id=x" t ∧
          attributesText (fun σ _ => roundabout.run σ) ctx s = .done "class=b id=x" t' := by
  have hplainly : plainly.Decorates none := .step trivial (.step trivial .done)
  have hroundabout : roundabout.Decorates none := .step trivial <| .step trivial <| .step trivial <|
    .step trivial <| .step (fun _ => rfl) <| .step trivial <| .step trivial .done
  refine ⟨hplainly, hroundabout, fun ctx s hs => ?_⟩
  have hsame : ∀ name,
      finalValue? plainly.settings name = finalValue? roundabout.settings name := by
    intro name
    have hfirst : finalValue? plainly.settings name =
        [("id", "x"), ("class", "b")].lookup name := rfl
    have hsecond : finalValue? roundabout.settings name =
        [("class", "b"), ("id", "x"), ("class", "a")].lookup name := rfl
    rw [hfirst, hsecond]
    by_cases hclass : name = "class"
    · subst hclass
      decide
    · simp only [List.lookup_cons, beq_eq_false_iff_ne.2 hclass]
  obtain ⟨line, entries, t, t', ht, ht', hline⟩ := attributesText_eq_of_finalValues
    ctx ctx (hs ▸ hplainly) (hs ▸ hroundabout) hsame
  have htext : attributesLine (settled plainly.settings) = "class=b id=x" := by
    have horder : ((settled plainly.settings).map attributeItem).Pairwise (· ≤ ·) := by decide
    rw [attributesLine_eq, List.mergeSort_eq_self _ horder]
    decide
  obtain ⟨u, hu⟩ := attributesText_run (hs ▸ hplainly) ctx
  rw [ht, htext] at hu
  cases hu
  exact ⟨t, t', ht, ht'⟩

end RenderM

end KeyedRender

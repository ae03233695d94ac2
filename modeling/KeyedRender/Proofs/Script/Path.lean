import KeyedRender.Proofs.Script.Plan
import KeyedRender.Proofs.Script.Trail

/-!
# Paths

A path keeps to a course as a trail does, and it accounts for more: which step changed the keys in
force, and to what; that a step wrote raw markup straight into an element; and, each as a whole,
what is written into an element that markup is printed into, and what an attribute comes with.
-/
namespace KeyedRender

open RenderM

def Instruction.IsKeying : Instruction → Prop
  | .pushKey _ => True
  | .popKey _ => True
  | .pushManualKey _ => True
  | .popManualKey => True
  | _ => False

/-- The calls that a path may account for one by one: those that set no property, nor an attribute
that a property comes with, and write no raw markup. -/
def TargetCall.IsSingle : TargetCall → Prop
  | .setAttribute name _ => name ≠ "checked" ∧ name ≠ "value"
  | .setProperty _ _ => False
  | .applyStatics _ => False
  | .setInnerMarkup _ _ => False
  | _ => True

theorem TargetCall.IsSingle.not_fills {call : TargetCall} (h : call.IsSingle) : ¬ call.Fills := by
  cases call <;> first | exact not_false | exact h.elim

def TargetCall.IsStep : TargetCall → Prop
  | .beginPatch _ _ _ => False
  | call => call.IsSingle

theorem TargetCall.IsStep.isSingle {call : TargetCall} (h : call.IsStep) : call.IsSingle := by
  cases call <;> first | exact h | exact h.elim

theorem TargetCall.IsStep.isInner {call : TargetCall} (h : call.IsStep) : call.IsInner := by
  cases call <;> trivial

def Question.IsStill : Question → Prop
  | .instruction (.pushKey _) => False
  | .instruction (.popKey _) => False
  | .instruction (.pushManualKey _) => False
  | .instruction .popManualKey => False
  | .instruction (.applyStatics _) => False
  | .instruction (.setInnerMarkup _ _) => False
  | question => question.IsPlain

theorem Question.IsStill.isPlain {question : Question} (h : question.IsStill) :
    question.IsPlain := by
  unfold IsStill at h
  split at h <;> first | exact h.elim | exact h

def RenderState.rekey {τ : Type} (i : Instruction) (s : RenderState τ) : RenderState τ :=
  { s with renderer := s.renderer.changeKeys fun keys =>
    (Keyring.after ⟨keys, s.shared.savedKeys⟩ i).keys }

section

variable {τ : Type} [RenderTarget τ]

structure Path (side : Shared → Shared → Prop) (watched : Bool)
    (R : List (Moment τ) → RenderState τ → RenderState τ → Prop) : Prop extends Course R where
  still : ∀ m : Moment τ, m.question.IsStill → R [m] m.state m.state
  keyed : ∀ {i : Instruction}, i.IsKeying → ∀ ctx s, R [⟨.instruction i, ctx, s⟩] s (s.rekey i)
  aside : ∀ {s sh}, side s.shared sh → R [] s { s with shared := sh }
  logger : ∀ s logger, R [] s { s with renderer := s.renderer.setLogger logger }
  marked : ∀ s, R [] s { s with renderer := s.renderer.markRendered }
  popped : ∀ {ms s t} layer, R ms (s.push layer) t → R ms s { t with renderer := t.renderer.pop }
  call : ∀ {ctx s t call node}, ctx.watched = watched → s.renderer.layers = [] → call.IsStep →
    callTarget call ctx s = .done node t → R [] s t
  assigned : ∀ {ctx s t} name value, ctx.watched = watched → s.renderer.layers = [] →
    (RenderM.setAttribute name value ctx s).EndsIn t → R [] s t
  statics : ∀ {ctx s t} attributes, ctx.watched = watched →
    ((Instruction.applyStatics attributes).perform ctx s).EndsIn t →
    R [⟨.instruction (.applyStatics attributes), ctx, s⟩] s t
  filled : ∀ {ctx s t} node markup, ctx.watched = watched →
    ((Instruction.setInnerMarkup node markup).perform ctx s).EndsIn t →
    R [⟨.instruction (.setInnerMarkup node markup), ctx, s⟩] s t
  blob : ∀ {ctx s u t node} key markup, ctx.watched = watched → s.renderer.layers = [] →
    callTarget (.openElement "html-blob" key) ctx s = .done (some node) u →
    (RenderM.writeBlob node markup ctx u).EndsIn t → R [] u t
  server : ∀ {ctx s t} name key parameters, ctx.watched = watched → s.renderer.layers = [] →
    (RenderM.openServerElement name key parameters ctx s).EndsIn t →
    R [⟨.block (.openServerElement name key parameters), ctx, s⟩] s t
  skippedServer : ∀ {ctx s} name key parameters, s.renderer.layers ≠ [] →
    R [⟨.block (.openServerElement name key parameters), ctx, s⟩] s s
  toDefault : ∀ {ctx s t}, ctx.watched = watched → (Instruction.toDefault.perform ctx s).EndsIn t →
    R [⟨.instruction .toDefault, ctx, s⟩] s t
  requeue : ∀ {ctx s t} index, ctx.watched = watched →
    ((Instruction.requeue index).perform ctx s).EndsIn t →
    R [⟨.instruction (.requeue index), ctx, s⟩] s t
  probed : ∀ {ctx s} spec, s.renderer.kind = .probe → R [⟨.component spec, ctx, s⟩] s s
  component : ∀ {spec ctx s id u ms v}, ctx.watched = watched → s.renderer.kind ≠ .probe →
    RenderM.beginComponent spec ctx s = .done id u → R ms u v →
    R (⟨.component spec, ctx, s⟩ :: ms) s v ∧
      ∀ {root t}, RenderM.attach id root ctx v = .done () t →
        R (⟨.component spec, ctx, s⟩ :: ms) s t

end

theorem RenderM.onTarget_of_layers {τ : Type} {m : RenderM τ (Option Answer)} {ctx : Context}
    {s : RenderState τ} (hs : s.renderer.layers ≠ []) :
    RenderM.onTarget m ctx s = .done (some .noTarget) s := by
  have htarget : s.renderer.target?.isSome = false := by simp [Renderer.target?, hs]
  simp only [RenderM.onTarget, bind_run, RenderM.renderer, htarget]
  rfl

theorem RenderM.onTarget_of_layers_eq_nil {τ : Type} (m : RenderM τ (Option Answer)) {ctx : Context}
    {s : RenderState τ} (hs : s.renderer.layers = []) : RenderM.onTarget m ctx s = m ctx s := by
  have htarget : s.renderer.target?.isSome := by simp [Renderer.target?, hs]
  simp only [RenderM.onTarget, bind_run, RenderM.renderer, htarget, if_true]

theorem Traces.onTarget {τ : Type} {w : Bool}
    {R : List (Moment τ) → RenderState τ → RenderState τ → Prop} (hC : Course R)
    {m : RenderM τ (Option Answer)}
    (hm : ∀ ctx s t, ctx.watched = w → s.renderer.layers = [] → (m ctx s).EndsIn t → R [] s t) :
    Traces w R (RenderM.onTarget m) .none := by
  intro ctx s t hw ht
  by_cases hs : s.renderer.layers = []
  · rw [onTarget_of_layers_eq_nil m hs] at ht
    exact hm ctx s t hw hs ht
  · rw [onTarget_of_layers hs] at ht
    obtain rfl := Outcome.EndsIn.done_iff.1 ht
    exact hC.refl s

theorem Traces.calling {τ : Type} [RenderTarget τ] {w : Bool}
    {R : List (Moment τ) → RenderState τ → RenderState τ → Prop} (hC : Course R) {call : TargetCall}
    (hcall : ∀ {ctx s t node}, ctx.watched = w → s.renderer.layers = [] →
      callTarget call ctx s = .done node t → R [] s t) (f : Option NodeId → Option Answer) :
    Traces w R (RenderM.onTarget do return f (← callTarget call)) .none := by
  refine .onTarget hC fun ctx s t hw hs ht => ?_
  obtain ⟨node, hnode⟩ := callTarget_of_endsIn (Outcome.EndsIn.returning_iff.1 ht)
  exact hcall hw hs hnode

section Assigning

variable {τ : Type} [RenderTarget τ] {w : Bool}
  {R : List (Moment τ) → RenderState τ → RenderState τ → Prop} (hC : Course R)
  (hmark : ∀ s, R [] s { s with renderer := s.renderer.markRendered })
include hC hmark

theorem Traces.emitting {call : TargetCall}
    (hcall : ∀ {ctx s t node}, ctx.watched = w → s.renderer.layers = [] →
      callTarget call ctx s = .done node t → R [] s t) :
    Traces w R (RenderM.emit? call) .none := by
  intro ctx s t hw ht
  cases hkind : s.renderer.kind with
  | default =>
    have hs := layers_of_kind_eq_default hkind
    rw [emit?_of_layers hs] at ht
    obtain ⟨node, hnode⟩ := callTarget_of_endsIn ht
    exact hcall hw hs hnode
  | muted =>
    simp only [RenderM.emit?, bind_run, RenderM.renderer, hkind] at ht
    obtain rfl := Outcome.EndsIn.done_iff.1 ht
    exact hC.refl s
  | probe =>
    simp only [RenderM.emit?, bind_run, RenderM.renderer, hkind] at ht
    obtain rfl := Outcome.EndsIn.done_iff.1 ht
    exact hmark s

variable (hcall : ∀ {ctx s t call node}, ctx.watched = w → s.renderer.layers = [] →
    call.IsInner → ¬ call.Fills → callTarget call ctx s = .done node t → R [] s t)
include hcall

theorem Traces.emitEach {call : TargetCall} (hi : call.IsInner) (hc : ¬ call.Fills) :
    Traces w R (RenderM.emit call) .none :=
  .before hC (.emitting hC hmark fun hw hs h => hcall hw hs hi hc h) fun _ => .pure hC _

theorem Traces.setAttribute (name value : String) :
    Traces w R (RenderM.setAttribute name value) .none := by
  refine .before hC (.emitEach hC hmark hcall trivial not_false) fun _ => ?_
  split
  · exact .emitEach hC hmark hcall trivial not_false
  · split
    · exact .emitEach hC hmark hcall trivial not_false
    · exact .pure hC _

theorem Traces.applyStatics (attributes : List (String × String)) :
    Traces w R (Instruction.applyStatics attributes).perform .none :=
  .returning hC (.emitEach hC hmark hcall trivial not_false)

end Assigning

def Layered {τ : Type} (R : List (Moment τ) → RenderState τ → RenderState τ → Prop)
    (ms : List (Moment τ)) (s t : RenderState τ) : Prop :=
  s.renderer.layers ≠ [] → R ms s t ∧ t.renderer.layers ≠ []

theorem Course.layered {τ : Type} {R : List (Moment τ) → RenderState τ → RenderState τ → Prop}
    (hC : Course R) : Course (Layered R) where
  refl s hs := ⟨hC.refl s, hs⟩
  append h h' hs :=
    have ⟨hfirst, ht⟩ := h hs
    have ⟨hsecond, hu⟩ := h' ht
    ⟨hC.append hfirst hsecond, hu⟩

theorem Layered.marked {τ : Type} {R : List (Moment τ) → RenderState τ → RenderState τ → Prop}
    (hmark : ∀ s, R [] s { s with renderer := s.renderer.markRendered }) (s : RenderState τ) :
    Layered R [] s { s with renderer := s.renderer.markRendered } := fun hs =>
  ⟨hmark s, by simpa [← List.length_eq_zero_iff] using hs⟩

theorem Trail.path {τ : Type} [RenderTarget τ] {side : Shared → Shared → Prop} {w : Bool}
    {R : List (Moment τ) → RenderState τ → RenderState τ → Prop} (h : Trail side w R) :
    Path side w R where
  toCourse := h.toCourse
  still m hm := h.plain m hm.isPlain
  keyed {i} hi ctx s := by
    have hplain : Question.IsPlain (.instruction i) := by
      cases i <;> first | exact hi.elim | trivial
    exact h.append (h.plain ⟨.instruction i, ctx, s⟩ hplain) (h.keys s _)
  aside := h.aside
  logger := h.logger
  marked := h.marked
  popped := h.popped
  call hw hs _ hcall := h.call hw hs hcall
  assigned name value hw _ ht := Traces.setAttribute h.toCourse h.marked
    (fun hw hs _ _ hcall => h.call hw hs hcall) name value _ _ _ hw ht
  statics {ctx s t} attributes hw ht := h.append
    (h.plain ⟨.instruction (.applyStatics attributes), ctx, s⟩ trivial)
    (Traces.applyStatics h.toCourse h.marked (fun hw hs _ _ hcall => h.call hw hs hcall)
      attributes ctx s t hw ht)
  filled {ctx s t} node markup hw ht := h.append
    (h.plain ⟨.instruction (.setInnerMarkup node markup), ctx, s⟩ trivial)
    (Traces.calling h.toCourse h.call _ ctx s t hw ht)
  blob {ctx s u t node} _ markup hw hs hopen ht := by
    have hu : u.renderer.layers = [] := (layers_of_callTarget hopen).trans hs
    obtain ⟨-, rfl⟩ | ⟨-, answer, v, hcall, rfl⟩ := writeBlob_of_endsIn hu ht
    · exact h.refl t
    · have hv : v.renderer.layers = [] := (layers_of_callTarget hcall).trans hu
      exact h.append (h.call hw hu hcall) (h.blob node markup hv)
  server := h.server
  skippedServer := h.skippedServer
  toDefault := h.toDefault
  requeue := h.requeue
  probed := h.probed
  component := h.component

namespace Path

open RenderM

variable {τ : Type} [RenderTarget τ] {side : Shared → Shared → Prop} {w : Bool}
  {R : List (Moment τ) → RenderState τ → RenderState τ → Prop} (h : Path side w R)
include h

theorem answer (hR : Reporting side) (question : Question) (a : Option Answer) :
    Traces w R (RenderM.answer question a) .none := by
  cases a with
  | none => exact .pure h.toCourse _
  | some a =>
    intro ctx s t _ ht
    obtain rfl := Outcome.EndsIn.done_iff.1 ht
    exact h.aside (hR.log (.answer question a) trivial s.shared)

theorem log (hR : Reporting side) (event : Event) (he : event.IsReport) :
    Traces w R (RenderM.log event) .none := by
  intro ctx s t _ ht
  obtain rfl := Outcome.EndsIn.done_iff.1 ht
  exact h.aside (hR.log event he s.shared)

theorem setLogger (logger : Option LoggerId) : Traces w R (RenderM.setLogger logger) .none := by
  intro ctx s t _ ht
  obtain rfl := Outcome.EndsIn.done_iff.1 ht
  exact h.logger s logger

theorem markRendered : Traces w R (changeRenderer Renderer.markRendered) .none := by
  intro ctx s t _ ht
  obtain rfl := Outcome.EndsIn.done_iff.1 ht
  exact h.marked s

theorem introduce (hR : Reporting side) {id : ComponentId} {ctx : Context} {s t : RenderState τ}
    (hid : id < s.shared.registry.components.size) (ht : (RenderM.introduce id ctx s).EndsIn t) :
    R [] s t := by
  obtain rfl := Outcome.EndsIn.done_iff.1 ht
  exact h.aside (hR.learn s.shared id hid)

theorem callLogger (hR : Reporting side) (call : LoggerCall) :
    Traces w R (RenderM.callLogger call) .none := by
  refine .before h.toCourse (.renderer h.toCourse fun _ => .pure h.toCourse _) fun logger => ?_
  cases logger with
  | none => exact .pure h.toCourse _
  | some logger => exact h.log hR (.logger logger call) trivial

theorem emit? (call : TargetCall) (hc : call.IsStep) : Traces w R (RenderM.emit? call) .none :=
  .emitting h.toCourse h.marked fun hw hs hcall => h.call hw hs hc hcall

theorem emit (call : TargetCall) (hc : call.IsStep) : Traces w R (RenderM.emit call) .none :=
  .before h.toCourse (h.emit? call hc) fun _ => .pure h.toCourse _

theorem openElement (name key : String) :
    Traces w R (RenderM.openElement name key) .none :=
  .renderer h.toCourse fun _ => h.emit? _ trivial

theorem setAttribute (name value : String) :
    Traces w R (RenderM.setAttribute name value) .none := by
  intro ctx s t hw ht
  by_cases hs : s.renderer.layers = []
  · exact h.assigned name value hw hs ht
  · exact (Traces.setAttribute h.toCourse.layered (Layered.marked h.marked)
      (fun _ hl _ _ _ hs => absurd hl hs) name value ctx s t hw ht hs).1

theorem maybeSkip (told : Bool) : Traces w R (RenderM.maybeSkip told) .none := by
  refine .renderer h.toCourse fun r => ?_
  split
  · exact .pure h.toCourse _
  · exact .before h.toCourse h.markRendered fun _ => .pure h.toCourse _
  · split
    · exact .before h.toCourse (h.emit _ trivial) fun _ =>
        .before h.toCourse (h.emit _ trivial) fun _ => .pure h.toCourse _
    · exact .pure h.toCourse _

theorem setAttributes (attributes : List (String × String)) :
    Traces w R (RenderM.setAttributes attributes) .none := by
  induction attributes with
  | nil => exact .pure h.toCourse _
  | cons a rest ih => exact .before h.toCourse (h.setAttribute _ _) fun _ => ih

theorem text (value : String) : Traces w R (RenderM.text value) .none :=
  h.emit? (.text value) trivial

theorem printContent (value : Printable) : Traces w R (RenderM.printContent value) .none :=
  .before h.toCourse (h.text _) fun _ => .pure h.toCourse _

theorem print (value : Printable) : Traces w R (RenderM.print value) .none := by
  cases value with
  | sanitizedHtml markup =>
    simp only [RenderM.print]
    split
    · intro ctx s t hw ht
      have close : Traces w R (do
          RenderM.emit .skip
          RenderM.emit .closeElement) .none :=
        .before h.toCourse (h.emit _ trivial) fun _ => h.emit _ trivial
      obtain ⟨e, he⟩ | ⟨blob, u, hblob, ht⟩ := Outcome.EndsIn.bind_iff.1 ht
      · exact h.openElement _ _ ctx s t hw (.inr ⟨e, he⟩)
      have hopened : R [] s u := h.openElement _ _ ctx s u hw (.inl ⟨blob, hblob⟩)
      refine h.append hopened ?_
      cases blob with
      | none => exact close ctx u t hw ht
      | some node =>
        obtain ⟨hs, hcall⟩ := callTarget_of_emit?_some hblob
        obtain ⟨e, he⟩ | ⟨a, v, ha, ht⟩ := Outcome.EndsIn.bind_iff.1 ht
        · exact h.blob _ markup hw hs hcall (.inr ⟨e, he⟩)
        · exact h.append (h.blob _ markup hw hs hcall (.inl ⟨a, ha⟩)) (close ctx v t hw ht)
    · exact h.printContent _
  | _ => exact h.printContent _

theorem comment (value : String) : Traces w R (RenderM.comment value) .none := by
  refine .reading h.toCourse (fun _ _ => rfl) fun element => ?_
  cases element with
  | none => exact .pure h.toCourse _
  | some element =>
    refine .reading h.toCourse (fun _ _ => rfl) fun d => ?_
    split
    · exact .before h.toCourse (h.emit _ trivial) fun _ => h.emit _ trivial
    · exact .before h.toCourse (h.emit _ trivial) fun _ => h.emit _ trivial

theorem inspect (node : NodeId) : Traces w R (Instruction.inspect node).perform .none := by
  refine Traces.onTarget h.toCourse fun ctx s t hw hs ht => ?_
  refine Traces.returning h.toCourse (m := readTarget fun target => inspectTarget target node)
    (.renderer h.toCourse fun r => ?_) ctx s t hw ht
  split
  · exact .pure h.toCourse _
  · exact .breakWith _

theorem stillInstruction {i : Instruction} (hi : Question.IsStill (.instruction i))
    (hm : Traces w R i.perform .none) :
    Traces w R i.perform fun ctx s => [⟨.instruction i, ctx, s⟩] := fun ctx s t hw ht =>
  h.append (h.still ⟨.instruction i, ctx, s⟩ hi) (hm ctx s t hw ht)

theorem keyingInstruction (hR : Reporting side) {i : Instruction} (hi : i.IsKeying) :
    Traces w R i.perform fun ctx s => [⟨.instruction i, ctx, s⟩] := by
  intro ctx s t _ ht
  have hkeyed := h.keyed hi ctx s
  have saved : ∀ keys, R [⟨.instruction i, ctx, s⟩] s { s.rekey i with
      shared := { s.shared with savedKeys := keys } } := fun keys =>
    h.append hkeyed (h.aside (hR.savedKeys s.shared keys))
  cases i with
  | pushKey fragment =>
    obtain rfl := Outcome.EndsIn.done_iff.1 ht
    exact saved (s.renderer.currentKey :: s.shared.savedKeys)
  | popKey previous? =>
    cases previous? with
    | some previous =>
      obtain rfl := Outcome.EndsIn.done_iff.1 ht
      exact hkeyed
    | none =>
      obtain rfl := Outcome.EndsIn.done_iff.1 ht
      exact saved s.shared.savedKeys.tail
  | pushManualKey fragment =>
    obtain rfl := Outcome.EndsIn.done_iff.1 ht
    exact hkeyed
  | popManualKey =>
    obtain rfl := Outcome.EndsIn.done_iff.1 ht
    exact hkeyed
  | _ => exact hi.elim

theorem perform (hR : Reporting side) (i : Instruction) :
    Traces w R i.perform fun ctx s => [⟨.instruction i, ctx, s⟩] := by
  have hC := h.toCourse
  have calling : ∀ call : TargetCall, call.IsStep → ∀ f : Option NodeId → Option Answer,
      Traces w R (RenderM.onTarget do return f (← callTarget call)) .none := fun _ hc f =>
    .calling hC (fun hw hs hcall => h.call hw hs hc hcall) f
  have done : ∀ {m : RenderM τ Unit}, Traces w R m .none →
      Traces w R (m >>= fun _ => Pure.pure (none : Option Answer)) .none := fun hm =>
    .returning hC hm
  -- Keys, static attributes, raw markup, the queue and the unmuting have rules of their own; every
  -- other step is followed by its own calls.
  cases i with
  | toDefault => exact fun ctx s t hw ht => h.toDefault hw ht
  | requeue index => exact fun ctx s t hw ht => h.requeue index hw ht
  | kind => exact h.stillInstruction trivial (.renderer hC fun _ => .pure hC _)
  | openElement name key =>
    exact h.stillInstruction trivial (.returning hC (h.openElement name key))
  | closeElement => exact h.stillInstruction trivial (.returning hC (h.emit? _ trivial))
  | text value => exact h.stillInstruction trivial (.returning hC (h.text _))
  | pointer =>
    exact h.stillInstruction trivial (.returning hC (.renderer hC fun _ => .pure hC _))
  | current =>
    exact h.stillInstruction trivial (.returning hC (.renderer hC fun _ => .pure hC _))
  | parameter =>
    exact h.stillInstruction trivial (.context hC fun _ => .returning hC (h.text _))
  | injected =>
    exact h.stillInstruction trivial (.context hC fun _ => .returning hC (h.text _))
  | maybeSkip told => exact h.stillInstruction trivial (.returning hC (h.maybeSkip told))
  | pushKey fragment => exact h.keyingInstruction hR trivial
  | newKey fragment => exact h.stillInstruction trivial (.renderer hC fun _ => .pure hC _)
  | currentKey => exact h.stillInstruction trivial (.renderer hC fun _ => .pure hC _)
  | decodeCurrentKey => exact h.stillInstruction trivial (.renderer hC fun _ => .pure hC _)
  | decodeKey encoded =>
    refine h.stillInstruction trivial ?_
    simp only [Instruction.perform]
    split
    · exact .fail hC _
    · exact .pure hC _
  | verifyLogOnly logOnly =>
    refine h.stillInstruction trivial (.returning hC (.renderer hC fun _ => ?_))
    split
    · exact .fail hC _
    · split
      · exact .fail hC _
      · exact .pure hC _
  | evaluateLogging name arguments placeholder =>
    refine h.stillInstruction trivial (.returning hC (.before hC (.renderer hC fun _ => .pure hC _)
      fun logger => ?_))
    cases logger with
    | none => exact .pure hC _
    | some logger =>
      refine .before hC (h.log hR (.logger logger (.evaluate name arguments)) trivial) fun _ => ?_
      exact .context hC fun _ => .pure hC _
  | logger =>
    exact h.stillInstruction trivial (.returning hC (.renderer hC fun _ => .pure hC _))
  | isTruthy value => exact h.stillInstruction trivial (.pure hC _)
  | callText template escaper =>
    exact h.stillInstruction trivial (.returning hC (.context hC fun _ => .pure hC _))
  | templateKind kind => exact h.stillInstruction trivial (.pure hC _)
  | functionKind kind => exact h.stillInstruction trivial (.pure hC _)
  | inspect node => exact h.stillInstruction trivial (h.inspect node)
  | appendComment parent value =>
    exact h.stillInstruction trivial (calling (.appendComment parent value) trivial _)
  | setInnerMarkup node markup => exact fun ctx s t hw ht => h.filled node markup hw ht
  | setComment node value =>
    exact h.stillInstruction trivial (calling (.setComment node value) trivial _)
  | pushManualKey fragment => exact h.keyingInstruction hR trivial
  | popManualKey => exact h.keyingInstruction hR trivial
  | popKey previous? => exact h.keyingInstruction hR trivial
  | setAttribute name value => exact h.stillInstruction trivial (done (h.setAttribute _ _))
  | skip => exact h.stillInstruction trivial (done (h.emit _ trivial))
  | skipNode => exact h.stillInstruction trivial (done (h.emit _ trivial))
  | applyAttributes => exact h.stillInstruction trivial (done (h.emit _ trivial))
  | applyStatics attributes => exact fun ctx s t hw ht => h.statics attributes hw ht
  | enter element logOnly => exact h.stillInstruction trivial (done (h.callLogger hR _))
  | exit => exact h.stillInstruction trivial (done (h.callLogger hR _))
  | setLogger logger => exact h.stillInstruction trivial (done (h.setLogger logger))
  | comment value => exact h.stillInstruction trivial (done (h.comment value))
  | print value => exact h.stillInstruction trivial (done (h.print value))
  | printContent value => exact h.stillInstruction trivial (done (h.printContent value))
  | callHtml template =>
    exact h.stillInstruction trivial (.before hC (.context hC fun _ => .pure hC _) fun _ =>
      .returning hC (h.text _))
  | callAttributes template filter =>
    exact h.stillInstruction trivial (.before hC (.context hC fun _ => .pure hC _) fun _ =>
      done (h.setAttributes _))
  | callEscaped template escaper =>
    exact h.stillInstruction trivial (.before hC (.context hC fun _ => .pure hC _) fun _ =>
      .returning hC (h.text _))
  | printAttributes sanitized markup filter =>
    exact h.stillInstruction trivial (done (h.setAttributes _))

end Path

end KeyedRender

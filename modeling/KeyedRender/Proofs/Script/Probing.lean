import KeyedRender.Proofs.Script.Callback

/-!
# Probing

A probe agrees with rendering. While a callback runs on a default renderer and on a probe, the probe
has been told of something exactly if a call has reached the target. The two part only where the
probe leaves out a body, and by then both have seen a call.
-/
namespace KeyedRender

open RenderM

/-- A default renderer without a logger whose target has been called. -/
structure Busy (s : RenderState MarkupWriter) : Prop where
  layers : s.renderer.layers = []
  logger : s.renderer.pass.logger = none
  called : s.shared.Called

section

variable {α β : Type} {ctx : Context} {s t : RenderState MarkupWriter}

theorem busy_of_callTarget {call : TargetCall} {node : Option NodeId} (hwatched : ctx.watched = true)
    (hlayers : s.renderer.layers = []) (hlogger : s.renderer.pass.logger = none)
    (hdone : callTarget call ctx s = .done node t) : Busy t := by
  have hrun : callTarget call ctx s = .done (s.renderer.pass.target.step call).1
      ⟨s.renderer.setTarget (s.renderer.pass.target.step call).2,
        { s.shared with log := if ctx.watched then s.shared.log.push (.target call)
          else s.shared.log }⟩ := rfl
  rw [hrun, hwatched] at hdone
  cases hdone
  exact ⟨hlayers, hlogger, call, Array.mem_push_self⟩

theorem busy_of_emit? {call : TargetCall} {node : Option NodeId} (hwatched : ctx.watched = true)
    (hlayers : s.renderer.layers = []) (hlogger : s.renderer.pass.logger = none)
    (hdone : emit? call ctx s = .done node t) : Busy t := by
  obtain ⟨r, _, hr, hdone⟩ := bind_eq_done.1 hdone
  cases hr
  simp only [Renderer.kind_of_layers hlayers] at hdone
  exact busy_of_callTarget hwatched hlayers hlogger hdone

def KeepsBusy (m : RenderM MarkupWriter α) : Prop :=
  ∀ ctx s a t, ctx.watched = true → Busy s → m ctx s = .done a t → Busy t

namespace KeepsBusy

theorem pure {a : α} : KeepsBusy (Pure.pure a) := by
  intro ctx s _ t _ hs hdone
  cases hdone
  exact hs

theorem bind {m : RenderM MarkupWriter α} {next : α → RenderM MarkupWriter β} (hm : KeepsBusy m)
    (hn : ∀ a, KeepsBusy (next a)) : KeepsBusy (m >>= next) := by
  intro ctx s b t hwatched hs hdone
  obtain ⟨a, u, hfirst, hrest⟩ := bind_eq_done.1 hdone
  exact hn a ctx u b t hwatched (hm ctx s a u hwatched hs hfirst) hrest

theorem ite {c : Prop} [Decidable c] {m n : RenderM MarkupWriter α} (hm : KeepsBusy m)
    (hn : KeepsBusy n) : KeepsBusy (if c then m else n) := by
  split
  · exact hm
  · exact hn

theorem fail {e : RenderError} : KeepsBusy (RenderM.fail e : RenderM MarkupWriter α) :=
  fun _ _ _ _ _ _ hdone => nomatch hdone

theorem emit (call : TargetCall) : KeepsBusy (emit call) := by
  refine bind (fun ctx s node t hwatched hs hdone => ?_) fun _ => pure
  exact busy_of_emit? hwatched hs.layers hs.logger hdone

theorem setAttribute (name value : String) : KeepsBusy (setAttribute name value) :=
  bind (emit _) fun _ => ite (emit _) (ite (emit _) pure)

theorem stampKey (key : String) : KeepsBusy (stampKey key) := by
  refine bind (fun ctx s _ t _ hs hdone => ?_) fun _ => ite (setAttribute _ _) pure
  cases hdone
  exact hs

theorem renderer : KeepsBusy (renderer (τ := MarkupWriter)) := by
  intro ctx s r t _ hs hdone
  cases hdone
  exact hs

theorem readTarget (read : MarkupWriter → Except Fault α) : KeepsBusy (readTarget read) := by
  refine bind renderer fun r => ?_
  cases read r.pass.target with
  | ok a => exact pure
  | error f => exact fun _ _ _ _ _ _ hdone => nomatch hdone

theorem changeRecord (node : NodeId) (change : NodeRecord → NodeRecord) :
    KeepsBusy (changeRecord (τ := MarkupWriter) node change) := by
  intro ctx s _ t _ hs hdone
  cases hdone
  exact ⟨hs.layers, hs.logger, hs.called⟩

theorem writeBlob (node : NodeId) (markup : String) : KeepsBusy (writeBlob node markup) :=
  bind (bind renderer fun _ => pure) fun _ =>
    ite (bind (emit _) fun _ => changeRecord node _) pure

theorem verifySkipParameters (node : NodeId) (parameters : Payload) :
    KeepsBusy (verifySkipParameters (τ := MarkupWriter) node parameters) := by
  refine bind (bind renderer fun _ => pure) fun document => ?_
  split
  · exact pure
  · split
    · exact changeRecord node _
    · exact ite (bind (readTarget _) fun _ => fail) pure

theorem served (name key : String) (parameters : Option Payload) {renders : Bool}
    (hwatched : ctx.watched = true) (hlayers : s.renderer.layers = [])
    (hlogger : s.renderer.pass.logger = none)
    (hdone : openServerElement name key parameters ctx s = .done renders t) : Busy t := by
  obtain ⟨r, _, hr, hdone⟩ := bind_eq_done.1 hdone
  cases hr
  simp only [Renderer.kind_of_layers hlayers] at hdone
  obtain ⟨opened, u, hopen, hdone⟩ := bind_eq_done.1 hdone
  have hopened := busy_of_callTarget hwatched hlayers hlogger hopen
  have skipped : KeepsBusy (do RenderM.emit .skip; RenderM.emit .closeElement; return false) :=
    bind (emit _) fun _ => bind (emit _) fun _ => pure
  refine bind (stampKey key) (fun _ => ?_) ctx u renders t hwatched hopened hdone
  cases opened with
  | none => exact pure
  | some node =>
    refine bind (readTarget _) fun content => ite ?_ pure
    cases parameters.filter Payload.isSupplied with
    | none => exact skipped
    | some supplied => exact bind (verifySkipParameters node supplied) fun _ => skipped

end KeepsBusy

end

variable {ρ : Type}

/-- The probe has been told of something exactly if the other target has been called; it has been if
an element was opened. -/
structure Tied (opened : Bool) (s : RenderState MarkupWriter) (s' : RenderState ρ) : Prop where
  layers : s.renderer.layers = []
  logger : s.renderer.pass.logger = none
  probe : ∃ rendered below, s'.renderer.layers = .probe rendered :: below ∧
    (rendered = true ↔ s.shared.Called) ∧ (opened = true → rendered = true)

namespace Tied

variable {s t : RenderState MarkupWriter} {s' t' : RenderState ρ} {o : Bool}

theorem busy (h : Tied true s s') : Busy s := by
  obtain ⟨rendered, below, -, hcalled, hrendered⟩ := h.probe
  exact ⟨h.layers, h.logger, hcalled.1 (hrendered rfl)⟩

theorem told (h : Tied true s s') : ∃ below, s'.renderer.layers = .probe true :: below := by
  obtain ⟨rendered, below, hlayers, -, hrendered⟩ := h.probe
  exact ⟨below, hrendered rfl ▸ hlayers⟩

theorem of_busy (h : Busy s) {below : List Layer}
    (hlayers : s'.renderer.layers = .probe true :: below) : Tied true s s' :=
  ⟨h.layers, h.logger, true, below, hlayers, by simp [h.called], fun _ => rfl⟩

theorem weaken (h : Tied true s s') : Tied o s s' := by
  obtain ⟨below, hlayers⟩ := h.told
  exact ⟨h.layers, h.logger, true, below, hlayers, by simp [h.busy.called], fun _ => rfl⟩

theorem kind (h : Tied o s s') : s'.renderer.kind = .probe := by
  obtain ⟨rendered, below, hlayers, -, -⟩ := h.probe
  simp only [Renderer.kind, hlayers]

theorem marked (h : Tied o s s') :
    ∃ below, s'.renderer.markRendered.layers = .probe true :: below := by
  obtain ⟨rendered, below, hlayers, -, -⟩ := h.probe
  exact ⟨below, by simp only [Renderer.markRendered, hlayers]⟩

theorem emit_run [RenderTarget ρ] (h : Tied o s s') (call : TargetCall) (ctx : Context) :
    emit? call ctx s' = .done none { s' with renderer := s'.renderer.markRendered } := by
  simp only [emit?, bind_run, renderer, h.kind]
  rfl

end Tied

section Steps

variable {α β : Type} {o : Bool}

theorem KeepsBusy.before {m : RenderM MarkupWriter Unit} (hm : KeepsBusy m)
    {n : RenderM MarkupWriter α} {n' : RenderM ρ β}
    {Q : α → β → RenderState MarkupWriter → RenderState ρ → Prop}
    (hn : Follows true (Tied true) n n' Q) :
    Follows true (Tied true) (m >>= fun _ => n) n' Q := by
  intro ctx ctx' s s' a t hctx hs hdone
  obtain ⟨_, u, hfirst, hrest⟩ := bind_eq_done.1 hdone
  obtain ⟨below, hlayers⟩ := hs.told
  have hbusy := hm ctx s _ u hctx.watched hs.busy hfirst
  exact hn ctx ctx' u s' a t hctx (.of_busy hbusy hlayers) hrest

variable [RenderTarget ρ]

theorem Tied.emit? (call call' : TargetCall) :
    Follows true (Tied (ρ := ρ) o) (emit? call) (emit? call') fun _ node' s s' =>
      Tied true s s' ∧ node' = none := by
  intro ctx ctx' s s' a t hctx hs hdone
  obtain ⟨below, hlayers⟩ := hs.marked
  exact ⟨none, _, hs.emit_run call' ctx',
    .of_busy (busy_of_emit? hctx.watched hs.layers hs.logger hdone) hlayers, rfl⟩

theorem Tied.emit (call call' : TargetCall) :
    Follows true (Tied (ρ := ρ) o) (emit call) (emit call') fun _ _ => Tied true :=
  .bind (Tied.emit? call call') fun _ _ => .assuming fun _ => .pure fun _ _ hs => hs

omit [RenderTarget ρ] in
theorem Tied.guards (renders : Bool) : Guards true (Tied (ρ := ρ) true) renders false := by
  intro body body' hbody
  cases renders with
  | false => exact .pure fun _ _ hs => hs
  | true =>
    intro ctx ctx' s s' a t hctx hs hdone
    obtain ⟨below, hlayers⟩ := hs.told
    obtain ⟨_, _, -, ht⟩ := hbody ctx ctx' s s' a t hctx hs hdone
    exact ⟨(), s', rfl, .of_busy ht.busy hlayers⟩

theorem Tied.markup {markup : String} (h : needsMarkup markup = true) :
    Follows true (Tied (ρ := ρ) o) (print (.sanitizedHtml markup)) (print (.sanitizedHtml markup))
      fun _ _ => Tied true := by
  have closed : Follows true (Tied (ρ := ρ) true)
      (do RenderM.emit .skip; RenderM.emit .closeElement)
      (do RenderM.emit .skip; RenderM.emit .closeElement) fun _ _ => Tied true :=
    .bind (emit _ _) fun _ _ => emit _ _
  simp only [print, h, if_true]
  refine .bind (Q := fun _ node' s s' => Tied true s s' ∧ node' = none) ?opened fun node node' =>
    .assuming fun hnone => ?written
  case opened => exact .renderer fun _ _ => .pre (emit? _ _) fun _ _ hs => hs.2.2
  case written =>
    rw [hnone]
    cases node with
    | none => exact closed
    | some node => exact (KeepsBusy.writeBlob node markup).before closed

theorem Tied.openServerElement (name key : String) (parameters : Option Payload) :
    Follows true (Tied (ρ := ρ) o) (openServerElement name key parameters)
      (openServerElement name key parameters) fun renders renders' s s' =>
        Tied true s s' ∧ Guards true (Tied (ρ := ρ) true) renders renders' := by
  intro ctx ctx' s s' renders t hctx hs hdone
  have hrun : RenderM.openServerElement name key parameters ctx' s' =
      .done false { s' with renderer := s'.renderer.markRendered } := by
    simp only [RenderM.openServerElement, bind_run, RenderM.renderer, hs.kind]
    rfl
  obtain ⟨below, hlayers⟩ := hs.marked
  have hbusy := KeepsBusy.served name key parameters hctx.watched hs.layers hs.logger hdone
  exact ⟨false, _, hrun, .of_busy hbusy hlayers, guards renders⟩

theorem Tied.maybeSkip (told : Bool) :
    Follows true (Tied (ρ := ρ) true) (maybeSkip told) (maybeSkip told)
      fun skipped skipped' s s' =>
        Tied true s s' ∧ Guards true (Tied (ρ := ρ) true) (!skipped) (!skipped') := by
  intro ctx ctx' s s' skipped t hctx hs hdone
  have hrun : RenderM.maybeSkip told ctx' s' =
      .done true { s' with renderer := s'.renderer.markRendered } := by
    simp only [RenderM.maybeSkip, bind_run, RenderM.renderer, hs.kind]
    rfl
  obtain ⟨below, hlayers⟩ := hs.marked
  obtain ⟨r, _, hr, hdone⟩ := bind_eq_done.1 hdone
  cases hr
  simp only [Renderer.kind_of_layers hs.layers] at hdone
  have hkeeps : KeepsBusy (if told then do
      RenderM.emit .skip
      RenderM.emit .closeElement
      return told else return told) :=
    .ite (.bind (.emit _) fun _ => .bind (.emit _) fun _ => .pure) .pure
  have hbusy : Busy t := by
    refine hkeeps ctx s skipped t hctx.watched hs.busy ?_
    cases told <;> exact hdone
  exact ⟨true, _, hrun, .of_busy hbusy hlayers, guards _⟩

theorem Tied.lockstep : Lockstep true (Tied (ρ := ρ)) where
  weaken := Tied.weaken
  unlogged := fun hs => by
    obtain ⟨rendered, below, hlayers, -, -⟩ := hs.probe
    simp only [Renderer.logger?, hs.layers, hs.logger, hlayers, and_self]
  keys := fun change change' hs => by
    obtain ⟨rendered, below, hlayers, hcalled, hrendered⟩ := hs.probe
    refine ⟨?_, ?_, rendered, below, ?_, hcalled, hrendered⟩
    · simp only [Renderer.changeKeys, hs.layers]
    · simp only [Renderer.changeKeys, hs.layers, hs.logger]
    · simp only [Renderer.changeKeys, hlayers]
  shared := fun sh sh' hs hsh => by
    obtain ⟨rendered, below, hlayers, hcalled, hrendered⟩ := hs.probe
    exact ⟨hs.layers, hs.logger, rendered, below, hlayers, hcalled.trans hsh.symm, hrendered⟩
  emit := fun _ => (Tied.emit? _ _).post fun _ _ _ _ hs => hs.1
  markup := fun _ h => Tied.markup h
  serve := Tied.openServerElement
  skip := Tied.maybeSkip

end Steps

theorem probe_run [RenderTarget ρ] {m : RenderM ρ Unit} {ctx : Context} {s t : RenderState ρ}
    (h : m ctx { s with renderer := s.renderer.push (.probe false) } = .done () t) :
    probe m ctx s = .done t.renderer.didRender { t with renderer := t.renderer.pop } := by
  have hattempt : attempt m ctx { s with renderer := s.renderer.push (.probe false) } =
      .done (.ok ()) t := by
    simp only [attempt, h]
  simp only [probe, layered, bind_run, changeRenderer, hattempt]
  rfl

namespace Callback

/-- The truthiness probe agrees with rendering: an ordinary callback that runs without an error on a
default renderer without a logger, over a markup target whose calls are watched, also runs without
one on a probe, in the same circumstances and over any target. The probe then says that something
was rendered exactly if that run has called its target. -/
theorem probe_of_run {c : Callback} (hc : c.IsOrdinary false) {ctx : Context}
    (hwatched : ctx.watched = true) {w : MarkupWriter} {registry : Registry}
    {savedKeys : List String} {t : RenderState MarkupWriter}
    (hdone : c.run MarkupWriter ctx ⟨.start w, ⟨registry, savedKeys, #[]⟩⟩ = .done () t)
    [RenderTarget ρ] {ctx' : Context} (hparameter : ctx'.parameter = ctx.parameter)
    (hinjected : ctx'.injected = ctx.injected) (hstamps : ctx'.stampsKeys = ctx.stampsKeys)
    (s : RenderState ρ) :
    ∃ rendered u, probe (c.run ρ) ctx' s = .done rendered u ∧
      (rendered = true ↔ ∃ call, Event.target call ∈ t.shared.log) := by
  have hstart : Tied false (⟨.start w, ⟨registry, savedKeys, #[]⟩⟩ : RenderState MarkupWriter)
      { s with renderer := s.renderer.push (.probe false) } :=
    ⟨rfl, rfl, false, s.renderer.layers, rfl, by simp [Shared.Called], fun h => h⟩
  obtain ⟨⟨⟩, t', hprobe, ht⟩ := follows hc Tied.lockstep ctx ctx' _ _ () t
    ⟨hwatched, hparameter, hinjected, hstamps⟩ hstart hdone
  obtain ⟨rendered, below, hlayers, hcalled, -⟩ := ht.probe
  have hrendered : t'.renderer.didRender = rendered := by
    simp only [Renderer.didRender, hlayers]
  exact ⟨_, _, probe_run hprobe, hrendered ▸ hcalled⟩

/-- Text of a nested template that nothing is done with, and an element with content that the probe
leaves out. -/
def quietThenOpened : Callback :=
  .step (.pushKey (.text "k")) <|
  .block (.coerce .html) (.step (.text "a") .done) <|
  .step (.popKey none) <|
  .step (.openElement "p" "") <|
  .unlessSkipped false (.step (.text "b") .done) <|
  .step .closeElement .done

def watchedContext : Context := ⟨"", .null, [], [], true, fun _ _ _ => "", true⟩

theorem isOrdinary_quietThenOpened : quietThenOpened.IsOrdinary false := by
  simp [quietThenOpened, IsOrdinary, Instruction.IsOrdinary, Block.IsOrdinary, Instruction.opens,
    Block.opens, Block.inPlace]

theorem probe_of_run_quietThenOpened :
    quietThenOpened.IsOrdinary false ∧
      ∃ u, probe (quietThenOpened.run MarkupWriter) watchedContext
        ⟨.start .new, ⟨.empty, [], #[]⟩⟩ = .done true u := by
  have hcalls : (match quietThenOpened.run MarkupWriter watchedContext
        ⟨.start .new, ⟨.empty, [], #[]⟩⟩ with
      | .done () t => t.shared.log.toList.any fun
        | .target _ => true
        | _ => false
      | .failed _ _ => false
      | .broken _ => false) = true := by decide +kernel
  cases hrun : quietThenOpened.run MarkupWriter watchedContext
      ⟨.start .new, ⟨.empty, [], #[]⟩⟩ with
  | failed e t => rw [hrun] at hcalls; cases hcalls
  | broken f => rw [hrun] at hcalls; cases hcalls
  | done a t =>
    rw [hrun] at hcalls
    obtain ⟨rendered, u, hprobe, hcalled⟩ := probe_of_run isOrdinary_quietThenOpened rfl hrun rfl rfl rfl
      (⟨.start .new, ⟨.empty, [], #[]⟩⟩ : RenderState MarkupWriter)
    obtain ⟨event, hmem, htarget⟩ := List.any_eq_true.1 hcalls
    have htrue : rendered = true := by
      refine hcalled.2 ?_
      cases event with
      | target call => exact ⟨call, Array.mem_toList_iff.1 hmem⟩
      | _ => cases htarget
    exact ⟨isOrdinary_quietThenOpened, u, htrue ▸ hprobe⟩

end Callback

end KeyedRender

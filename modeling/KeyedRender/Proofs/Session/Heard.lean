import KeyedRender.Proofs.Script.Voiced
import KeyedRender.Proofs.Session.Anew
import KeyedRender.Proofs.Session.Known
import KeyedRender.Proofs.Target.Vacant

/-!
# Muting is not heard

A script that is muted tells what its voice tells with the logger of the renderer, wherever it is
muted: under keys, in the middle of other components, with components queued. A pass that renders
the script on a new target with that logger tells the same. So the same calls reach the logger, and
the script is told the same keys and ends with the same error.
-/
namespace KeyedRender

open RenderTarget (apply)
open MarkupWriter (root)
open RenderM (bind_run pure_run)

/-- The calls of loggers, and what scripts were told of keys and loggers. -/
def Shared.spoken (sh : Shared) : List Event := sh.log.toList.filter Event.isSpoken

def PassReport.spoken (report : PassReport) : List Event := report.events.filter Event.isSpoken

section

variable {τ σ : Type} {mayBreak : Prop} {P : RenderState τ → Prop}

/-- A run ends as a report says, with its error if there is one, and tells what the report tells
after what was told before. -/
def Outcome.SoundsLike (before : Shared) (report : PassReport) :
    Outcome (RenderState τ) Unit → Prop
  | .done _ t => report.error = none ∧ t.shared.spoken = before.spoken ++ report.spoken
  | .failed e t => report.error = some e ∧ t.shared.spoken = before.spoken ++ report.spoken
  | .broken _ => False

/-- What is reported of a pass that renders a script on a new target, with the logger and the saved
keys of some state. -/
def Script.reportAnew [RenderTarget σ] (script : Script) (rule : Key.MatchRule) (ctx : Context)
    (s : RenderState τ) (target : σ) : Except Fault PassReport :=
  match RenderM.patch root .inner rule s.renderer.logger? (script.run σ)
    { ctx with rendering := [], pinned := [], watched := true }
    ⟨.start target, ⟨.empty, s.shared.savedKeys, #[]⟩⟩ with
  | .done () t => .ok (Session.finish none t).1
  | .failed e t => .ok (Session.finish (some e) t).1
  | .broken f => .error f

theorem Script.reportAnew_eq_pass [RenderTarget σ] (script : Script) (rule : Key.MatchRule)
    (settings : Settings) {s : RenderState τ} (hs : s.shared.savedKeys = []) (target : σ) :
    script.reportAnew rule (Session.context settings) s target =
      ((Session.start target).pass settings
        (.bracketed root .inner rule s.renderer.logger? script)).map Prod.fst := by
  have hpass : (Session.start target).pass settings
      (.bracketed root .inner rule s.renderer.logger? script) =
      match RenderM.patch root .inner rule s.renderer.logger? (script.run σ)
        (Session.context settings) ⟨.start target, ⟨.empty, [], #[]⟩⟩ with
      | .done () t => Except.ok (Session.finish none t)
      | .failed e t => Except.ok (Session.finish (some e) t)
      | .broken f => Except.error f := rfl
  rw [hpass, reportAnew, hs]
  change (match RenderM.patch root .inner rule s.renderer.logger? (script.run σ)
    (Session.context settings) ⟨.start target, ⟨.empty, [], #[]⟩⟩ with
    | .done () t => Except.ok (Session.finish none t).1
    | .failed e t => Except.ok (Session.finish (some e) t).1
    | .broken f => Except.error f) = _
  cases RenderM.patch root .inner rule s.renderer.logger? (script.run σ) (Session.context settings)
    ⟨.start target, ⟨.empty, [], #[]⟩⟩ <;> rfl

def Script.heard (script : Script) (ctx : Context) (s : RenderState τ) :
    Outcome (RenderState Unit) Unit :=
  script.voice ctx.voice ⟨.aside s.renderer.logger?, ⟨.empty, s.shared.savedKeys, #[]⟩⟩

def Outcome.ReportedBy (report : PassReport) : Outcome (RenderState Unit) Unit → Prop
  | .done _ u => report.error = none ∧ report.spoken = u.shared.log.toList
  | .failed e u => report.error = some e ∧ report.spoken = u.shared.log.toList
  | .broken _ => False

/-- An outcome and what is told of it, whatever became of the renderer. -/
inductive Outcome.Tells (mayBreak : Prop) (P : RenderState τ → Prop) :
    Outcome (RenderState τ) Unit → Outcome (RenderState Unit) Unit → Prop
  | done {s u} : P s → u.shared = s.shared.voice → Tells mayBreak P (.done () s) (.done () u)
  | failed {e s u} : P s → u.shared = s.shared.voice →
      Tells mayBreak P (.failed e s) (.failed e u)
  | broken {f o} : mayBreak → Tells mayBreak P (.broken f) o

theorem Outcome.Echoes.tells [RenderTarget τ] {G : Ground τ} {o : Outcome (RenderState τ) Unit}
    {o' : Outcome (RenderState Unit) Unit} (h : o.Echoes G P Eq o') :
    o.Tells G.mayBreak P o' := by
  cases h with
  | done hs _ => exact .done hs rfl
  | failed hs => exact .failed hs rfl
  | broken hb => exact .broken hb

theorem Outcome.Tells.soundsLike {o : Outcome (RenderState τ) Unit}
    {heard : Outcome (RenderState Unit) Unit} {before : Shared} {report : PassReport}
    (h : o.Tells mayBreak P (heard.after before.voice.log)) (hreport : heard.ReportedBy report)
    (hends : ∀ f, o ≠ .broken f) : o.SoundsLike before report := by
  have hspoken : ∀ {s : RenderState τ} {u : RenderState Unit},
      (u.after before.voice.log).shared = s.shared.voice → report.spoken = u.shared.log.toList →
      s.shared.spoken = before.spoken ++ report.spoken := by
    intro s u hu hr
    have hlog := congrArg (fun sh : Shared => sh.log.toList) hu
    rw [hr]
    simpa [RenderState.after, Shared.voice, Shared.spoken] using hlog.symm
  cases heard with
  | done a u =>
    cases h with
    | done _ hu => exact ⟨hreport.1, hspoken hu hreport.2⟩
    | broken _ => exact absurd rfl (hends _)
  | failed e u =>
    cases h with
    | failed _ hu => exact ⟨hreport.1, hspoken hu hreport.2⟩
    | broken _ => exact absurd rfl (hends _)
  | broken f => exact hreport.elim

end

section

variable {τ σ : Type} {script : Script} (h : script.Stays)
include h

/-- A muted script is heard with the logger of the renderer, whatever keys and components it is
muted under. -/
theorem Script.muted_tells [RenderTarget τ] {mayBreak requeues : Prop}
    (hr : script.All fun i => requeues ∨ ¬ i.IsRequeue) {ctx : Context} {s : RenderState τ}
    (hl : s.renderer.layers = [])
    (hapart : mayBreak ∨
      Apart requeues [] ctx.rendering s.shared.registry s.renderer.pass.queue) :
    (RenderM.muted (script.run τ) ctx s).Tells mayBreak
      (fun t => t.renderer.pass.target = s.renderer.pass.target)
      ((script.heard ctx s).after s.shared.voice.log) := by
  have hkind : s.renderer.kind = .default := by rw [Renderer.kind, hl]
  have hpushed : (Ground.under mayBreak requeues s.renderer.pass.target).On [] 0 ctx.rendering
      { s with renderer := s.renderer.push (.muted .empty s.renderer.logger?) } :=
    ⟨by simp [Renderer.push, hl, Ground.under], rfl, hapart⟩
  have hheard := Script.voices h (Ground.under mayBreak requeues s.renderer.pass.target) 0 hr [] ctx
    _ hpushed
  have hvoice : RenderState.voice true
      { s with renderer := s.renderer.push (.muted .empty s.renderer.logger?) } =
      RenderState.after s.shared.voice.log
        ⟨.aside s.renderer.logger?, ⟨.empty, s.shared.savedKeys, #[]⟩⟩ := by
    simp [RenderState.voice, Renderer.voice, Renderer.push, hl, Renderer.aside, Renderer.start,
      Layer.hush, RenderState.after, Shared.voice]
  have hunder : (Ground.under mayBreak requeues s.renderer.pass.target).covered = true := rfl
  rw [hunder, hvoice, script.forgets_voice] at hheard
  change Outcome.Echoes _ _ _ _ ((script.heard ctx s).after s.shared.voice.log) at hheard
  simp only [RenderM.muted, bind_run, RenderM.renderer, hkind, RenderM.shielded, RenderM.logger?,
    pure_run, RenderM.layered, RenderM.changeRenderer, RenderM.attempt]
  generalize script.run τ ctx
    { s with renderer := s.renderer.push (.muted .empty s.renderer.logger?) } = o at hheard ⊢
  generalize (script.heard ctx s).after s.shared.voice.log = o' at hheard ⊢
  cases hheard with
  | done ht _ => exact .done ht.target rfl
  | failed ht => exact .failed ht.target rfl
  | broken hb => exact .broken hb

theorem Script.heard_anew [RenderTarget σ] (G : Ground σ) (hr : G.requeues)
    (hc : G.covered = false) {target : σ} (htarget : G.holds target) {rule : Key.MatchRule}
    (hbegin : Allows (fun _ => G.mayBreak) (fun r => G.holds r.2)
      (apply (.beginPatch root .inner rule) target)) (ctx : Context) (s : RenderState τ) :
    Allows (fun _ => G.mayBreak) (script.heard ctx s).ReportedBy
      (script.reportAnew rule ctx s target) := by
  have hall : script.All fun i => G.requeues ∨ ¬ i.IsRequeue :=
    script.all_trivial.imp fun _ _ => .inl hr
  have hon : G.On [] 0 [] ⟨.start target, ⟨.empty, s.shared.savedKeys, #[]⟩⟩ :=
    ⟨by rw [hc]; rfl, htarget, .inr ⟨List.nil_subset _, by simp, by simp, by simp [Registry.empty],
      by simp [Renderer.start]⟩⟩
  have hpatch := (Voices.patch (Script.voices h G 0 hall) hc
    { ctx with rendering := [], pinned := [], watched := true } hon root .inner rule hbegin
    s.renderer.logger?).tells
  have hstart : RenderState.voice G.covered
      (⟨.start target, ⟨.empty, s.shared.savedKeys, #[]⟩⟩ : RenderState σ) =
      ⟨.aside none, ⟨.empty, s.shared.savedKeys, #[]⟩⟩ := by
    rw [hc]
    rfl
  rw [hstart] at hpatch
  change Outcome.Tells _ _ _ (script.heard ctx s) at hpatch
  rw [reportAnew]
  generalize RenderM.patch root .inner rule s.renderer.logger? (script.run σ) _ _ = o at hpatch ⊢
  generalize script.heard ctx s = o' at hpatch ⊢
  cases hpatch with
  | done _ hu => exact ⟨rfl, congrArg (fun sh : Shared => sh.log.toList) hu.symm⟩
  | failed _ hu => exact ⟨rfl, congrArg (fun sh : Shared => sh.log.toList) hu.symm⟩
  | broken hb => exact hb

theorem Script.heard_written (rule : Key.MatchRule) (ctx : Context) (s : RenderState τ) :
    ∃ report, script.reportAnew rule ctx s MarkupWriter.new = .ok report ∧
      (script.heard ctx s).ReportedBy report := by
  have hheard := script.heard_anew h (MarkupWriter.ground False True) trivial rfl .new
    (MarkupWriter.InBounds.new.step (.beginPatch root .inner rule)) ctx s
  cases hreport : script.reportAnew rule ctx s MarkupWriter.new with
  | ok report =>
    rw [hreport] at hheard
    exact ⟨report, rfl, hheard⟩
  | error f =>
    rw [hreport] at hheard
    exact hheard.elim

theorem Script.heard_live {rule : Key.MatchRule} {ctx : Context} {s : RenderState τ}
    {report : PassReport} (hreport : script.reportAnew rule ctx s KeyedDom.new = .ok report) :
    (script.heard ctx s).ReportedBy report := by
  have hnew : KeyedDom.new.Vacant := ⟨List.nodup_nil, nofun⟩
  have hheard := script.heard_anew h KeyedDom.ground trivial rfl hnew (KeyedDom.vacant_begun rule)
    ctx s
  rw [hreport] at hheard
  exact hheard

/-- Renderer calls never break on a new keyed target. -/
theorem Script.exists_live (hall : script.All Instruction.IsRendered) (rule : Key.MatchRule)
    (ctx : Context) (s : RenderState τ) :
    ∃ report, script.reportAnew rule ctx s KeyedDom.new = .ok report := by
  have hnew : Alongside Anew.New ⟨.start KeyedDom.new, ⟨.empty, s.shared.savedKeys, #[]⟩⟩
      ⟨.start MarkupWriter.new, ⟨.empty, s.shared.savedKeys, #[]⟩⟩ :=
    ⟨fun _ hevent => absurd hevent (Array.not_mem_empty _), _, ⟨rfl, rfl⟩, rfl⟩
  have hmatches := Script.paired_patch hall rule s.renderer.logger?
    { ctx with rendering := [], pinned := [], watched := true } _ _ hnew
  obtain ⟨report, hwritten, -⟩ := script.heard_written h rule ctx s
  rw [reportAnew] at hwritten ⊢
  generalize RenderM.patch root .inner rule _ (script.run KeyedDom) _ _ = o at hmatches ⊢
  generalize RenderM.patch root .inner rule _ (script.run MarkupWriter) _ _ = o'
    at hmatches hwritten
  cases hmatches with
  | done hs => exact ⟨_, rfl⟩
  | failed hs => exact ⟨_, rfl⟩
  | broken => cases hwritten

/-- Muting changes no logging. In whatever state a default renderer is, a script that neither mutes
nor unmutes its renderer tells the same when it is muted there as a pass tells that renders it on a
new target with the logger of the renderer: the same calls of the logger in the same order, the same
keys and logged texts, and the same error. On a new markup target every script can be rendered, and
on a new keyed one if it leaves the target to its renderer. A muted script breaks only where it
queues a component that is rendering: it ends if the components that are rendering have been
created, and the script queues none that is known, or none of them is known yet. -/
theorem Script.soundsLike_muted [RenderTarget τ] (ctx : Context) {s : RenderState τ}
    (hl : s.renderer.layers = []) (rule : Key.MatchRule) :
    let muted := RenderM.muted (script.run τ) ctx s
    let known := s.shared.registry.known
    let size := s.shared.registry.components.size
    (∃ written, script.reportAnew rule ctx s MarkupWriter.new = .ok written ∧
      ((∀ f, muted ≠ .broken f) → muted.SoundsLike s.shared written)) ∧
    (∀ live, script.reportAnew rule ctx s KeyedDom.new = .ok live →
      (∀ f, muted ≠ .broken f) → muted.SoundsLike s.shared live) ∧
    (script.All Instruction.IsRendered →
      ∃ live, script.reportAnew rule ctx s KeyedDom.new = .ok live) ∧
    ((∀ id ∈ ctx.rendering, id < size) →
      script.All (¬ ·.IsRequeue) ∨ (∀ id ∈ known, id ∉ ctx.rendering ∧ id < size) →
      ∀ f, muted ≠ .broken f) := by
  intro muted known size
  have hall : script.All fun i => True ∨ ¬ i.IsRequeue :=
    script.all_trivial.imp fun _ _ => .inl trivial
  have hmuted : muted.Tells True (fun t => t.renderer.pass.target = s.renderer.pass.target)
      ((script.heard ctx s).after s.shared.voice.log) := script.muted_tells h hall hl (.inl trivial)
  obtain ⟨written, hwritten, hreported⟩ := script.heard_written h rule ctx s
  refine ⟨⟨written, hwritten, hmuted.soundsLike hreported⟩,
    fun live hlive => hmuted.soundsLike (script.heard_live h hlive),
    fun hall => script.exists_live h hall rule ctx s, fun hrendering hqueue f hf => ?_⟩
  let unknown : Prop := ∀ id ∈ known, id ∉ ctx.rendering ∧ id < size
  have hfitting : script.All fun i => unknown ∨ ¬ i.IsRequeue := by
    rcases hqueue with hnone | hknown
    · exact hnone.imp fun _ hi => .inr hi
    · exact script.all_trivial.imp fun _ _ => .inl hknown
  have hends : muted.Tells False (fun t => t.renderer.pass.target = s.renderer.pass.target)
      ((script.heard ctx s).after s.shared.voice.log) :=
    script.muted_tells h hfitting hl (.inr ⟨List.nil_subset _, hrendering,
      fun hr id hid hmem => (hr id hmem).1 hid, fun hr id hid => (hr id hid).2, by simp⟩)
  rw [hf] at hends
  cases hends with
  | broken hb => exact hb

end

/-- A template that logs, also in a condition, in content that is turned into text and in a
component, and goes on without a logger. -/
def logged : Script :=
  .step (.enter ⟨⟨1, "list"⟩, none⟩ false) <| .step (.pushKey (.text "a")) <|
  .step .currentKey <|
  .block .attempt (.block .probe (.step (.verifyLogOnly true) .done) .done) <|
  .block (.coerce .html) (.step (.evaluateLogging "now" [] "-") .done) <|
  .component ⟨.counter, .text "r", "row", "li", "r", .opened⟩
    (.step (.pushManualKey (.text "m")) .done)
    (.step (.newKey (.text "b")) <| .step .exit .done) <|
  .step (.setLogger (some 2)) <| .step .exit <| .step (.setLogger none) <|
  .step (.verifyLogOnly true) .done

/-- A pass that comes to a text inside a component, under a key. -/
def keyedPass : Act :=
  .pass ⟨"", .null, loggedText, true⟩ (.bracketed 0 .inner .keyed (some 1)
    (.step (.pushKey (.text "outer")) <|
      .component ⟨.counter, .text "c", "", "div", "c", .opened⟩ .done
        (.step (.text "x") .done) .done))

/-- The logging template is muted inside a component, under a key. It has keys of its own there. -/
theorem Script.soundsLike_muted_inside : logged.Stays ∧
    ∃ m ∈ (Session.start KeyedDom.new).momentsOf keyedPass,
      m.state.renderer.currentKey = "5:outer" ∧ m.context.rendering = [0] ∧
      m.state.renderer.pass.queue = [0] ∧ ∃ written live,
        logged.reportAnew .keyed m.context m.state MarkupWriter.new = .ok written ∧
        logged.reportAnew .keyed m.context m.state KeyedDom.new = .ok live ∧
        (RenderM.muted (logged.run KeyedDom) m.context m.state).SoundsLike m.state.shared written ∧
        (RenderM.muted (logged.run KeyedDom) m.context m.state).SoundsLike m.state.shared live ∧
        written.error = some .logOnlyWithoutLogger ∧
        written.spoken.filterMap (fun
          | .logger logger _ => some (toString logger)
          | .answer _ (.text value) => some value
          | _ => none) = ["1", "", "1:a", "1", "now@1(0)", "1:b1:m", "1", "2"] := by
  have hstays : logged.Stays := by simp [logged, Script.Stays]
  have hrendered : logged.All Instruction.IsRendered := by
    simp [logged, Script.All, Instruction.IsRendered]
  have hqueues : logged.All (¬ ·.IsRequeue) := by
    simp [logged, Script.All, Instruction.IsRequeue]
  have hruns : ((Session.start KeyedDom.new).momentsOf keyedPass).any (fun m =>
      m.state.renderer.layers.isEmpty && decide (m.state.renderer.currentKey = "5:outer") &&
      decide (m.context.rendering = [0]) && decide (m.state.renderer.pass.queue = [0]) &&
      (logged.reportAnew .keyed m.context m.state MarkupWriter.new).toOption.any fun written =>
        decide (written.error = some .logOnlyWithoutLogger) &&
        decide (written.spoken.filterMap (fun
          | .logger logger _ => some (toString logger)
          | .answer _ (.text value) => some value
          | _ => none) = ["1", "", "1:a", "1", "now@1(0)", "1:b1:m", "1", "2"])) = true := by
    decide +kernel
  obtain ⟨m, hm, hruns⟩ := List.any_eq_true.1 hruns
  simp only [Bool.and_eq_true, List.isEmpty_iff, decide_eq_true_eq] at hruns
  obtain ⟨⟨⟨⟨hl, hkey⟩, hrendering⟩, hqueue⟩, hwritten⟩ := hruns
  obtain ⟨written, hwrite, htold⟩ := exists_ok_of_any hwritten
  simp only [Bool.and_eq_true, decide_eq_true_eq] at htold
  obtain ⟨⟨written', hwrite', halike⟩, halive, hlives, hends⟩ :=
    Script.soundsLike_muted hstays m.context hl .keyed
  obtain rfl : written = written' := Except.ok.inj (hwrite.symm.trans hwrite')
  obtain ⟨live, hlive⟩ := hlives hrendered
  have hreached : Session.Reached (fun _ _ => True) (.start KeyedDom.new) := .start
  have hends := hends (hreached.created_of_momentsOf hm).1 (.inl hqueues)
  exact ⟨hstays, m, hm, hkey, hrendering, hqueue, written, live, hwrite, hlive, halike hends,
    halive live hlive hends, htold⟩

end KeyedRender

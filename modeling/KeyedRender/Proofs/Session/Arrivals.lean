import KeyedRender.Proofs.Script.Arrivals
import KeyedRender.Proofs.Script.Callers

/-!
# Skip records of a session

Over all passes of a session, also those that fail, what is recorded of a node is written once,
by the first arrival that supplies parameters when the node has content, and every arrival is
checked against it.
-/
namespace KeyedRender

def PassPlan.moments (plan : PassPlan) : Moments KeyedDom :=
  match plan with
  | .bracketed root mode rule logger script =>
    .after (RenderM.callTarget (.beginPatch root mode rule)) fun _ =>
      .after (RenderM.setLogger logger) fun _ => script.moments
  | .direct root begins logger first second =>
    let scripts : Moments KeyedDom := .after (RenderM.setLogger logger) fun _ ctx s =>
      first.moments ctx s ++ Moments.after (RenderM.attempt (first.run KeyedDom)) (fun result =>
        .after RenderM.logQueueLength fun _ => .after RenderM.flushQueue fun _ =>
          .after RenderM.logQueueLength fun _ =>
            match result with
            | .ok () => second.moments
            | .error _ => .none) ctx s
    if begins then .after (RenderM.callTarget (.beginPatch root .inner .keyed)) fun _ => scripts
    else scripts

def PassPlan.All (p : Instruction → Prop) : PassPlan → Prop
  | .bracketed _ _ _ _ script => script.All p
  | .direct _ _ _ first second => first.All p ∧ second.All p

theorem PassPlan.fit_moments {p : Instruction → Prop} {plan : PassPlan} (h : plan.All p) :
    plan.moments.Fit p := by
  cases plan with
  | bracketed root mode rule logger script =>
    exact .after _ fun _ => .after _ fun _ => Script.fit_moments h
  | direct root begins logger first second =>
    have hsecond : ∀ result : Except RenderError Unit, Moments.Fit p (match result with
        | .ok () => second.moments (τ := KeyedDom)
        | .error _ => .none) := by
      rintro (e | ⟨⟩)
      · exact .none
      · exact Script.fit_moments h.2
    have hscripts := Moments.Fit.after (RenderM.setLogger (τ := KeyedDom) logger) fun _ =>
      (Script.fit_moments h.1).append (.after (RenderM.attempt (first.run KeyedDom)) fun result =>
        .after RenderM.logQueueLength fun _ => .after RenderM.flushQueue fun _ =>
          .after RenderM.logQueueLength fun _ => hsecond result)
    cases begins with
    | true => exact .after (RenderM.callTarget (.beginPatch root .inner .keyed)) fun _ => hscripts
    | false => exact hscripts

section Plan

open RenderM

variable {w : Bool} {R : List (Moment KeyedDom) → RenderState KeyedDom → RenderState KeyedDom → Prop}
  (hC : Course R)

section Started

variable (hcall : ∀ call : TargetCall, call.IsStep → Traces w R (callTarget call) .none)
  (hlogger : ∀ logger, Traces w R (setLogger logger) .none)
  (hlength : Traces w R logQueueLength .none) (hflush : Traces w R RenderM.flushQueue .none)
  (hscript : ∀ script : Script, Traces w R (script.run KeyedDom) script.moments)
include hC hcall hlogger hlength hflush hscript

theorem Course.started (plan : PassPlan) {ctx : Context} {s t : RenderState KeyedDom}
    (hw : ctx.watched = w) (ht : (plan.perform KeyedDom ctx s).EndsIn t) :
    R (plan.moments ctx s) s t ∨ ∃ mode rule answer u,
      callTarget (.beginPatch plan.root mode rule) ctx s = .done answer u ∧
        R (plan.moments ctx s) u t := by
  have begun : ∀ {call : TargetCall} {rest : RenderM KeyedDom Unit} {ms : Moments KeyedDom},
      Traces w R rest ms → ((callTarget call >>= fun _ => rest) ctx s).EndsIn t →
      ∃ answer u, callTarget call ctx s = .done answer u ∧
        R (Moments.after (callTarget call) (fun _ => ms) ctx s) u t := by
    intro call rest ms hrest hends
    rcases Outcome.EndsIn.bind_iff.1 hends with ⟨e, he⟩ | ⟨answer, u, hu, hends⟩
    · obtain ⟨answer, hdone⟩ := callTarget_of_endsIn (.inr ⟨e, he⟩)
      rw [he] at hdone
      cases hdone
    · refine ⟨answer, u, hu, ?_⟩
      rw [Moments.after, hu]
      exact hrest ctx u t hw hends
  cases plan with
  | bracketed root mode rule logger script =>
    simp only [PassPlan.perform, patch, bracketed, bind_assoc] at ht
    have hrest := Traces.after hC (hlogger logger) fun _ =>
      Traces.before hC (.attempt (hscript script)) fun result =>
        .before hC (hcall .endPatch trivial) fun _ =>
          .before hC (.resume hC result) fun _ => hflush
    exact .inr ⟨mode, rule, begun hrest ht⟩
  | direct root begins logger first second =>
    have hfinish : ∀ final : Except RenderError Unit, Traces w R (do
        RenderM.logQueueLength
        RenderM.flushQueue
        RenderM.resume final) .none := fun final =>
      .before hC hlength fun _ => .before hC hflush fun _ => .resume hC final
    have hscripts : Traces w R
        (RenderM.direct root false logger (first.run KeyedDom) (second.run KeyedDom))
        (PassPlan.direct root false logger first second).moments := by
      simp only [RenderM.direct, PassPlan.moments, Bool.false_eq_true, if_false]
      refine .after hC (hlogger _) fun _ => .bind hC (.attempt (hscript first)) fun result =>
        .after hC hlength fun _ => .after hC hflush fun _ => .after hC hlength fun _ => ?_
      cases result with
      | ok _ => exact .before hC (.attempt (hscript second)) hfinish
      | error e => exact .before hC (.pure hC _) hfinish
    cases begins with
    | true => exact .inr ⟨.inner, .keyed, begun hscripts ht⟩
    | false => exact .inl (hscripts ctx s t hw ht)

end Started

variable (hcall : ∀ call : TargetCall, call.IsSingle → Traces w R (callTarget call) .none)
  (hlogger : ∀ logger, Traces w R (setLogger logger) .none)
  (hlength : Traces w R logQueueLength .none) (hflush : Traces w R RenderM.flushQueue .none)
  (hscript : ∀ script : Script, Traces w R (script.run KeyedDom) script.moments)
include hC hcall hlogger hlength hflush hscript

theorem Traces.plan (plan : PassPlan) : Traces w R (plan.perform KeyedDom) plan.moments := by
  intro ctx s t hw ht
  rcases hC.started (fun call hc => hcall call hc.isSingle) hlogger hlength hflush hscript plan hw
    ht with h | ⟨mode, rule, answer, u, hbegin, h⟩
  · exact h
  · exact hC.append (hcall (.beginPatch plan.root mode rule) trivial ctx s u hw
      (.inl ⟨answer, hbegin⟩)) h

theorem Approaches.plan (happroach : ∀ script : Script, Approaches w R script.moments)
    (plan : PassPlan) : Approaches w R plan.moments := by
  cases plan with
  | bracketed root mode rule logger first =>
    exact .after hC (hcall _ trivial) fun _ => .after hC (hlogger _) fun _ => happroach first
  | direct root begins logger first second =>
    have hscripts : Approaches w R (PassPlan.direct root false logger first second).moments := by
      simp only [PassPlan.moments, Bool.false_eq_true, if_false]
      refine .after hC (hlogger _) fun _ =>
        .bind hC (.attempt (hscript first)) (happroach first) fun result =>
          .after hC hlength fun _ => .after hC hflush fun _ => .after hC hlength fun _ => ?_
      cases result with
      | ok _ => exact happroach second
      | error e => exact .none
    cases begins with
    | true => exact .after hC (hcall (.beginPatch root .inner .keyed) trivial) fun _ => hscripts
    | false => exact hscripts

end Plan

namespace TargetCourse

open RenderM

variable {w : Bool} {R : List (Moment KeyedDom) → RenderState KeyedDom → RenderState KeyedDom → Prop}
  (h : TargetCourse R)
include h

theorem setLogger (logger : Option LoggerId) : Traces w R (RenderM.setLogger logger) .none :=
  h.changeRenderer (Renderer.target_setLogger · logger)

theorem logQueueLength : Traces w R RenderM.logQueueLength .none :=
  .renderer h.toCourse fun _ => h.changeShared _

theorem flushQueue : Traces w R RenderM.flushQueue .none :=
  .flushQueue h.toCourse (h.changeRenderer fun _ => rfl) fun _ =>
    .before h.toCourse (h.changeShared _) fun _ => h.changeShared _

variable (hcall : ∀ call : TargetCall, call.IsSingle → Traces w R (callTarget call) .none)
  (hscript : ∀ script : Script, Traces w R (script.run KeyedDom) script.moments)
include hcall hscript

theorem plan (plan : PassPlan) : Traces w R (plan.perform KeyedDom) plan.moments :=
  .plan h.toCourse hcall h.setLogger h.logQueueLength h.flushQueue hscript plan

theorem approaches (happroach : ∀ script : Script, Approaches w R script.moments)
    (plan : PassPlan) : Approaches w R plan.moments :=
  .plan h.toCourse hcall h.setLogger h.logQueueLength h.flushQueue hscript happroach plan

end TargetCourse

namespace Arrivals

open RenderM

variable {w : Bool}

theorem isTargetCourse : TargetCourse Between :=
  ⟨isCourse, fun h => of_document (congrArg KeyedDom.document h)⟩

theorem callTarget (call : TargetCall) : Traces w Between (RenderM.callTarget call) .none := by
  intro ctx s t _ ht
  obtain ⟨answer, hdone⟩ := callTarget_of_endsIn ht
  exact .of_keeps (callTarget_keeps hdone)

theorem pass (plan : PassPlan) : Traces w Between (plan.perform KeyedDom) plan.moments :=
  isTargetCourse.plan (fun call _ => callTarget call)
    (fun script => script.traces Side.trivial (trail w).path) plan

end Arrivals

namespace Session

open Arrival (firstOffered)

def performAll : List Act → Session KeyedDom → Except Fault (Session KeyedDom)
  | [], s => .ok s
  | a :: rest, s => s.perform a >>= performAll rest

def momentsOf (s : Session KeyedDom) : Act → List (Moment KeyedDom)
  | .pass settings plan => plan.moments (context settings) s.initial
  | _ => []

theorem fits_of_momentsOf {p : Instruction → Prop} {s : Session KeyedDom} {settings : Settings}
    {plan : PassPlan} (h : plan.All p) :
    ∀ m ∈ s.momentsOf (.pass settings plan), m.question.Fits p :=
  PassPlan.fit_moments h (context settings) s.initial

def moments : List Act → Session KeyedDom → List (Moment KeyedDom)
  | [], _ => []
  | a :: rest, s => s.momentsOf a ++
    match s.perform a with
    | .ok s' => moments rest s'
    | .error _ => []

theorem endsIn_of_pass {settings : Settings} {plan : PassPlan} {report : PassReport}
    {s s' : Session KeyedDom} (h : s.pass settings plan = .ok (report, s')) :
    ∃ t, (plan.perform KeyedDom (context settings) s.initial).EndsIn t ∧ s' = t.session ∧
      report.events = t.shared.log.toList := by
  rw [pass] at h
  cases ho : plan.perform KeyedDom (context settings) ⟨.start s.target, ⟨s.registry, [], #[]⟩⟩ with
  | done a t =>
    rw [ho] at h
    cases h
    exact ⟨t, .inl ⟨a, ho⟩, rfl, rfl⟩
  | failed e t =>
    rw [ho] at h
    cases h
    exact ⟨t, .inr ⟨e, ho⟩, rfl, rfl⟩
  | broken f =>
    rw [ho] at h
    cases h

theorem endsIn_of_perform {settings : Settings} {plan : PassPlan} {s s' : Session KeyedDom}
    (h : s.perform (.pass settings plan) = .ok s') :
    ∃ t, (plan.perform KeyedDom (context settings) s.initial).EndsIn t ∧ s' = t.session := by
  cases hpass : s.pass settings plan with
  | ok r =>
    rw [perform, hpass] at h
    cases h
    obtain ⟨t, ht, hs, -⟩ := endsIn_of_pass hpass
    exact ⟨t, ht, hs⟩
  | error f =>
    rw [perform, hpass] at h
    cases h

theorem passage_perform {s s' : Session KeyedDom} {a : Act} (h : s.perform a = .ok s') :
    s.target.document.Passage (s.momentsOf a) s'.target.document := by
  have edited : a.IsEdit → s.target.document.Passage [] s'.target.document := fun ha => by
    have hediting := Document.Keeps.editing (f := NodeRecord.skipParameters)
    have hedited := edited_perform hediting.reshaping.toRestructuring s ha
    rw [h] at hedited
    exact .of_keeps hedited.1
  cases a with
  | pass settings plan =>
    obtain ⟨t, ht, rfl⟩ := endsIn_of_perform h
    exact Arrivals.pass (w := true) plan (context settings) s.initial t rfl ht
  | _ => exact edited trivial

theorem passage_performAll {acts : List Act} {s s' : Session KeyedDom}
    (h : performAll acts s = .ok s') :
    s.target.document.Passage (moments acts s) s'.target.document := by
  induction acts generalizing s with
  | nil =>
    cases h
    exact .refl _
  | cons a rest ih =>
    simp only [performAll, bind, Except.bind] at h
    cases ha : s.perform a with
    | error f =>
      rw [ha] at h
      cases h
    | ok s₁ =>
      rw [ha] at h
      simp only [moments, ha]
      exact (passage_perform ha).trans (ih h)

/-- In every step of every pass, what is recorded of a node that is there is what was recorded at
first, or else what was first supplied when an element with content was opened by a server's key
there. Where such an element is opened, that is what is found; it is what is left unless something
is supplied for the first time, and it decides the answer. -/
theorem skip_records {acts : List Act} {s s' : Session KeyedDom} (h : performAll acts s = .ok s') :
    (∀ n, s'.target.document.isLive n = true → s'.target.document.skipParameters? n =
      (s.target.document.skipParameters? n).or
        (firstOffered ((moments acts s).filterMap Moment.arrival?) n)) ∧
    ∀ before m after, moments acts s = before ++ m :: after →
      (∀ n, m.state.renderer.pass.target.document.isLive n = true →
        m.state.renderer.pass.target.document.skipParameters? n =
          (s.target.document.skipParameters? n).or
            (firstOffered (before.filterMap Moment.arrival?) n)) ∧
      ∀ a, m.arrival? = some a →
        a.before = (s.target.document.skipParameters? a.node).or
          (firstOffered (before.filterMap Moment.arrival?) a.node) ∧
        a.after = a.before.or a.offered ∧ a.Answers := by
  have hpassage := passage_performAll h
  refine ⟨fun n hn => hpassage.whole.recorded hn, fun before m after hms =>
    ⟨fun n hn => (hpassage.upto hms).recorded hn, fun a ha => ?_⟩⟩
  have has : (moments acts s).filterMap Moment.arrival? = before.filterMap Moment.arrival? ++
      a :: after.filterMap Moment.arrival? := by
    rw [hms, List.filterMap_append, List.filterMap_cons_some ha]
  exact hpassage.whole.arrivals has

def servedPass (value : String) : Act :=
  .pass ⟨"", .null, loggedText, true⟩ (.bracketed 0 .inner .keyed none
    (.block (.openServerElement "p" "list" (some (.text value))) .done .done))

def servedTwice : List Act :=
  [.appendElement 0 "p" "list", .appendText 1 "x", servedPass "a", servedPass "b"]

theorem skip_records_twice : ∃ s, performAll servedTwice (start .new) = .ok s ∧
    s.target.document.skipParameters? 1 = some "\"a\"" := by
  have hlive : (match performAll servedTwice (start .new) with
      | .ok s => s.target.document.isLive 1
      | .error _ => false) = true := by decide +kernel
  cases hs : performAll servedTwice (start .new) with
  | error f =>
    rw [hs] at hlive
    cases hlive
  | ok s =>
    rw [hs] at hlive
    refine ⟨s, rfl, ((skip_records hs).1 1 hlive).trans ?_⟩
    decide +kernel

end Session

end KeyedRender

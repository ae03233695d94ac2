import KeyedRender.Proofs.Script.Guarded
import KeyedRender.Proofs.Session.Arrivals

/-!
# What is true of the document of a session

What is true of the first document, and kept by the calls of a rendering and by the edits between
passes, is true at every step of every pass, also of those that fail, unless one of the steps that
are ruled out was made before.
-/
namespace KeyedRender

open RenderM

variable {bad : Moment KeyedDom → Bool} {P : Document → Prop}

namespace Guard

variable {w : Bool} (h : Guard bad P)
include h

theorem script (script : Script) : Traces w (Guarded bad P) (script.run KeyedDom) script.moments :=
  script.traces Side.trivial (h.path w)

theorem pass (plan : PassPlan) : Traces w (Guarded bad P) (plan.perform KeyedDom) plan.moments :=
  Guarded.isTargetCourse.plan h.callTarget h.script plan

theorem approaches (plan : PassPlan) : Approaches w (Guarded bad P) plan.moments :=
  Guarded.isTargetCourse.approaches h.callTarget h.script
    (fun script => script.approaches (h.guides w) script.all_trivial) plan

end Guard

namespace Session

variable {s s' : Session KeyedDom} {a : Act} {before after : List (Moment KeyedDom)}
  {m : Moment KeyedDom}

/-- No step of an act is ruled out. -/
def Avoids (bad : Moment KeyedDom → Bool) (s : Session KeyedDom) (a : Act) : Prop :=
  ∀ m ∈ s.momentsOf a, bad m = false

section

variable (hguard : Guard bad P)
include hguard

theorem perform_guarded (hedit : Document.Restructuring fun d d' => P d → P d')
    (h : P s.target.document) (ha : s.Avoids bad a) (hs : s.perform a = .ok s') :
    P s'.target.document := by
  have edited : a.IsEdit → P s'.target.document := fun ha => by
    have hedited := edited_perform hedit s ha
    rw [hs] at hedited
    exact hedited.1 h
  cases a with
  | pass settings plan =>
    obtain ⟨t, ht, rfl⟩ := endsIn_of_perform hs
    exact hguard.pass (w := true) plan (context settings) s.initial t rfl ht ha h
  | _ => exact edited trivial

theorem Reached.guarded (hedit : Document.Restructuring fun d d' => P d → P d')
    (hstart : P (.single "body")) (h : Reached (Avoids bad) s) : P s.target.document := by
  induction h with
  | start => exact hstart
  | act _ ha hs ih => exact perform_guarded hguard hedit ih ha hs

theorem guarded_of_momentsOf (h : P s.target.document)
    (hsplit : s.momentsOf a = before ++ m :: after) (hfree : ∀ m ∈ before, bad m = false) :
    P m.state.renderer.pass.target.document := by
  cases a with
  | pass settings plan =>
    exact (hguard.approaches (w := true) plan (context settings) s.initial before m after
      rfl hsplit).course hfree h
  | _ => cases before <;> cases hsplit

end

end Session

end KeyedRender

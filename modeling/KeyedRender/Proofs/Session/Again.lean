import KeyedRender.Proofs.Session.Agreement
import KeyedRender.Proofs.Target.Replay

/-!
# Rendering the same again

A pass leaves an element whose children are settled for the plan of its script, and the same pass
gives that back: it creates, moves and removes nothing.
-/
namespace KeyedRender

namespace Session

open RenderM (bind_eq_done)

variable {s : Session KeyedDom} {root : NodeId} {rule : Key.MatchRule} {script : Script}
  {t₀ t₁ t' : KeyedDom}

theorem pass_of_brings {k : Keyring} (settings : Settings) (logger : Option LoggerId)
    (hbegin : s.target.beginPatch root .inner rule = .ok t₀)
    (hscript : Brings (script.run KeyedDom) ⟨t₀, ⟨.empty, []⟩⟩ () ⟨t₁, k⟩)
    (hend : t₁.endPatch = .ok t') :
    ∃ report, s.pass settings (.bracketed root .inner rule logger script) =
      .ok (report, ⟨t', s.registry⟩) ∧ report.error = none := by
  obtain ⟨log, -, hbracket⟩ := bracketed_of_run (k := k) (m := script.run KeyedDom) settings logger
    hbegin hend
  obtain ⟨log₁, -, hrun⟩ := hscript (context settings) logger [] s.registry log
  obtain ⟨log₂, -, hbracketed⟩ := hbracket hrun
  -- No component was queued, and so there is nothing to synchronize.
  have hpatch : RenderM.patch root .inner rule logger (script.run KeyedDom) (context settings)
      s.initial = .done () (Stage.state ⟨t', k⟩ logger [] s.registry log₂) :=
    bind_eq_done.2 ⟨_, _, hbracketed, rfl⟩
  have hpass : s.pass settings (.bracketed root .inner rule logger script) =
      .ok (finish none (Stage.state ⟨t', k⟩ logger [] s.registry log₂)) := by
    rw [initial] at hpatch
    simp only [pass, PassPlan.perform, hpatch]
  exact ⟨_, hpass, rfl⟩

/-- On an element that is there, a script succeeds that closes what it opens. The same pass once
more gives back the session that the first one has left: the nodes with all they are and their
places, and the counters of the target. -/
theorem pass_again_of_spans (h : Reached Proper s)
    (hroot : (s.target.document.element? root).isSome) (hscript : script.Spans 0 0)
    (settings : Settings) (rule : Key.MatchRule) (logger : Option LoggerId) :
    ∃ report s', s.pass settings (.bracketed root .inner rule logger script) = .ok (report, s') ∧
      report.error = none ∧
      ∃ again, s'.pass settings (.bracketed root .inner rule logger script) = .ok (again, s') ∧
        again.error = none := by
  obtain ⟨plan, k, hplan⟩ := hscript.exists_plan ⟨.empty, []⟩
  obtain ⟨t₁, t', hruns, hend, rfl, hsettled⟩ :=
    KeyedDom.settles_pass h.atRest.1.tree hroot rule plan
  obtain ⟨t₂, hruns', hend'⟩ := hsettled.runs_again
  obtain ⟨report, hpass, herror⟩ := pass_of_brings settings logger
    (KeyedDom.beginPatch_inner s.target root _) (hplan _ _ hruns) hend
  obtain ⟨again, hpass', herror'⟩ := pass_of_brings (s := ⟨t', s.registry⟩) settings logger
    (KeyedDom.beginPatch_inner t' root _) (hplan _ _ hruns') hend'
  exact ⟨report, _, hpass, herror, again, hpass', herror'⟩

/-- A list with an item whose key is the beginning of the key of an item in a call. -/
def keyedList : Session KeyedDom :=
  ⟨{ KeyedDom.new with document := ⟨#[
    some ⟨none, .element { Element.new "body" "" with children := [1] }⟩,
    some ⟨some 0, .element { Element.new "ul" "list" with children := [2] }⟩,
    some ⟨some 1, .element (.new "li" "1:b")⟩]⟩ }, .empty⟩

def itemInCall : Script :=
  .step (.pushKey (.text "x")) <| .step (.openElement "li" "b") <|
    .step (.setAttribute "class" "old") <| .step (.setAttribute "class" "new") <|
    .block .print (.step (.text "one") .done) <| .step (.print (.sanitizedHtml "<b>two</b>")) <|
    .step .closeElement <| .step (.popKey none) .done

theorem pass_again_of_spans_list :
    Reached Proper keyedList ∧ itemInCall.Spans 0 0 ∧
    ∀ settings, ∃ report s' again,
      keyedList.pass settings (.bracketed 1 .inner .keyed none itemInCall) = .ok (report, s') ∧
      s'.pass settings (.bracketed 1 .inner .keyed none itemInCall) = .ok (again, s') := by
  have hreached : Reached Proper keyedList :=
    .act (a := .appendElement 1 "li" "1:b")
      (.act (a := .appendElement 0 "ul" "list") .start rfl rfl) rfl rfl
  have hspans : itemInCall.Spans 0 0 :=
    .plain trivial (.opening "li" "b" (.plain trivial (.plain trivial (.callback
      (.plain trivial .done) (.print _ (.closing (.plain trivial .done)))))))
  refine ⟨hreached, hspans, fun settings => ?_⟩
  have hlist : (keyedList.target.document.element? 1).isSome := rfl
  obtain ⟨report, s', hpass, -, again, hpass', -⟩ :=
    pass_again_of_spans hreached hlist hspans settings .keyed none
  exact ⟨report, s', again, hpass, hpass'⟩

end Session

end KeyedRender

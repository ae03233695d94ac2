import KeyedRender.Proofs.Session.Bracketed
import KeyedRender.Proofs.Session.Tree
import KeyedRender.Proofs.Target.Writing

/-!
# Rendering again and rendering anew

A plain script builds the same tree below the root of a pass, whatever was there, as it does in a
new markup target.
-/
namespace KeyedRender

open RenderTarget (apply)

namespace RenderM

variable {τ : Type} (ctx : Context)

theorem flushQueue_run (hctx : ctx.rendering = []) (s : RenderState τ) :
    ∃ t, flushQueue ctx s = .done () t ∧ t.renderer.pass.target = s.renderer.pass.target := by
  obtain ⟨g, log, -, -, hrun⟩ := synchronizeAll_run hctx s.renderer.pass.queue
    { s with renderer := s.renderer.clearQueue }
  exact ⟨_, hrun, rfl⟩

end RenderM

namespace Session

theorem pass_of_sure {τ : Type} [RenderTarget τ] {s : Session τ} (settings : Settings)
    {root : NodeId} {mode : PatchMode} {rule : Key.MatchRule} {logger : Option LoggerId}
    {script : Script} {O : τ → Prop}
    (h : Triple (.sure τ) (fun t _ => t = s.target)
      (RenderM.bracketed root mode rule logger (script.run τ)) fun _ t _ => O t) :
    ∃ report s', s.pass settings (.bracketed root mode rule logger script) = .ok (report, s') ∧
      report.error = none ∧ O s'.target := by
  have hmeets := h (context settings) s.initial rfl rfl
  cases ho : RenderM.bracketed root mode rule logger (script.run τ) (context settings)
      s.initial with
  | done a t =>
    rw [ho] at hmeets
    obtain ⟨t', ht', htarget⟩ := RenderM.flushQueue_run (context settings) rfl t
    -- The queue is synchronized outside of any component.
    have hpatch : RenderM.patch root mode rule logger (script.run τ) (context settings)
        ⟨.start s.target, ⟨s.registry, [], #[]⟩⟩ = .done () t' := by
      change RenderM.patch root mode rule logger (script.run τ) (context settings) s.initial = _
      rw [RenderM.patch, RenderM.bind_run, ho]
      exact ht'
    have hpass : s.pass settings (.bracketed root mode rule logger script) =
        .ok (finish none t') := by
      simp only [pass, PassPlan.perform, hpatch]
    refine ⟨_, _, hpass, rfl, ?_⟩
    show O t'.renderer.pass.target
    rw [htarget]
    exact hmeets.2
  | failed e t =>
    rw [ho] at hmeets
    exact hmeets.2.elim
  | broken f =>
    rw [ho] at hmeets
    exact hmeets.elim

variable {s : Session KeyedDom} {script : Script}

theorem bracketed_draws (hs : s.target.Sound) {root : NodeId}
    (hroot : (s.target.document.element? root).isSome) (hscript : script.Balanced 0)
    (rule : Key.MatchRule) (logger : Option LoggerId) :
    Triple (.sure KeyedDom) (fun t _ => t = s.target)
      (RenderM.bracketed root .inner rule logger (script.run KeyedDom)) fun _ t _ =>
      s.target.document.EditsBelow root t.document ∧
        ∃ e, t.document.element? root = some e ∧
          Carries e.attributes (script.draw .blank).level.assigned ∧
          t.document.Shows e.children (script.draw .blank).level.shapes := by
  have htemplate := (KeyedDom.draws s.target.document root).script hscript
    (show Sketch.blank.outer.length = 0 from rfl)
  refine .bracketed (F := fun _ _ => False) (fun t g ht => ?_) htemplate (fun t g ht => ?_)
    fun _ _ => False.elim
  · subst ht
    obtain ⟨e, he⟩ := Option.isSome_iff_exists.1 hroot
    have hblank : Level.blank.ShownAt s.target.document ⟨root, 0⟩ :=
      ⟨e, he, Nat.zero_le _, by simp [Carries, Level.blank], by simpa using .nil⟩
    exact ⟨⟨hs.tree, .base ⟨hroot, Nat.zero_le _⟩⟩, .refl _ root, .base hblank, rfl⟩
  · obtain ⟨hdraft, hclosed⟩ := ht
    obtain ⟨t', ht', hend⟩ := hdraft.endPatch hclosed
    exact .of_ok_map ht' hend

theorem bracketed_writes (hscript : script.Balanced 0) (rule : Key.MatchRule)
    (logger : Option LoggerId) :
    Triple (.sure MarkupWriter) (fun w _ => w = .new)
      (RenderM.bracketed MarkupWriter.root .inner rule logger (script.run MarkupWriter))
      fun _ w _ => w.document.Shows (w.document.children MarkupWriter.root)
        (script.draw .blank).level.shapes := by
  have htemplate := MarkupWriter.draws.script hscript
    (show Sketch.blank.outer.length = 0 from rfl)
  refine .bracketed (F := fun _ _ => False) (fun w g hw => ?_) htemplate (fun w g hw => ?_)
    fun _ _ => False.elim
  · subst hw
    exact ⟨_, _, MarkupWriter.draft_new⟩
  · obtain ⟨⟨f, below, hdraft⟩, hclosed⟩ := hw
    exact hdraft.shows_children hclosed

open Document (SameTrees)

/-- A plain script that closes what it opens succeeds on any element. The names and texts below
the element become those that the script builds in a new markup target. Attributes end with the
values set last, and nothing changes that was not below the element. -/
theorem agrees_of_balanced (h : Reached Proper s) {root : NodeId}
    (hroot : (s.target.document.element? root).isSome) (hscript : script.Balanced 0)
    (settings : Settings) (rule : Key.MatchRule) (logger : Option LoggerId) :
    ∃ report s' anew w,
      s.pass settings (.bracketed root .inner rule logger script) = .ok (report, s') ∧
      report.error = none ∧
      (start MarkupWriter.new).pass settings (.bracketed MarkupWriter.root .inner rule logger script) =
        .ok (anew, w) ∧
      anew.error = none ∧
      SameTrees s'.target.document w.target.document (s'.target.document.children root)
        (w.target.document.children MarkupWriter.root) ∧
      (∃ e, s'.target.document.element? root = some e ∧
        Carries e.attributes (script.draw .blank).level.assigned ∧
        s'.target.document.Shows e.children (script.draw .blank).level.shapes) ∧
      ∀ id < s.target.document.size, ¬ s.target.document.Below root id →
        s'.target.document.node? id = s.target.document.node? id := by
  obtain ⟨report, s', hpass, herror, hedits, e, he, hcarries, hshows⟩ :=
    pass_of_sure settings (bracketed_draws h.atRest.1 hroot hscript rule logger)
  obtain ⟨anew, w, hpass', herror', hshows'⟩ :=
    pass_of_sure (s := start MarkupWriter.new) settings (bracketed_writes hscript rule logger)
  refine ⟨report, s', anew, w, hpass, herror, hpass', herror', ?_, ⟨e, he, hcarries, hshows⟩,
    hedits.changes⟩
  rw [Document.children_of_element? he]
  exact hshows.sameTrees hshows'

def oldList : Session KeyedDom :=
  ⟨{ KeyedDom.new with document := ⟨#[
    some ⟨none, .element { Element.new "body" "" with children := [1] }⟩,
    some ⟨some 0, .element { Element.new "ul" "list" with children := [2, 3] }⟩,
    some ⟨some 1, .text "none yet"⟩,
    some ⟨some 1, .element (.new "li" "b")⟩]⟩ }, .empty⟩

def newItem : Script :=
  .step (.openElement "li" "a") <| .step (.setAttribute "class" "draft") <|
    .step (.setAttribute "class" "item") <| .step (.text "one") <| .step .closeElement .done

theorem agrees_of_balanced_list :
    Reached Proper oldList ∧ newItem.Balanced 0 ∧
    ∀ settings, ∃ report s', oldList.pass settings (.bracketed 1 .inner .keyed none newItem) =
      .ok (report, s') ∧ ∃ e, s'.target.document.element? 1 = some e ∧
        s'.target.document.Shows e.children
          [.element "li" [("class", "item"), ("class", "draft")] [.text "one"]] := by
  have hreached : Reached Proper oldList :=
    .act (a := .appendElement 1 "li" "b") (.act (a := .appendText 1 "none yet")
      (.act (a := .appendElement 0 "ul" "list") .start rfl rfl) rfl rfl) rfl rfl
  have hbalanced : newItem.Balanced 0 :=
    .opening "li" "a" (.plain trivial (.plain trivial (.plain trivial (.closing .done))))
  refine ⟨hreached, hbalanced, fun settings => ?_⟩
  have hlist : (oldList.target.document.element? 1).isSome := rfl
  obtain ⟨report, s', -, -, hpass, -, -, -, -, ⟨e, he, -, hshows⟩, -⟩ :=
    agrees_of_balanced hreached hlist hbalanced settings .keyed none
  exact ⟨report, s', hpass, e, he, hshows⟩

end Session

end KeyedRender

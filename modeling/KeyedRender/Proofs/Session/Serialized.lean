import KeyedRender.Proofs.Session.Agreement
import KeyedRender.Proofs.Target.Serializing

/-!
# The markup of a pass

A pass over a new markup target writes the markup of its script: every start tag has each attribute
once, in the order in which the names came first and with the values that came last, and between the
tags stands what was written there, in order.
-/
namespace KeyedRender

open Document (Tip Writes)
open MarkupWriter (root)

theorem Document.Writes.innerMarkup {d d' : Document} {p : NodeId} {e : Element}
    {settings : List (String × String)} {trees : List Markup.Tree} (he : d.element? p = some e)
    (hraw : e.raw = none) (hempty : e.children = []) (hlast : d.size = p + 1)
    (h : d.Writes p settings trees d') :
    d'.innerMarkup p = String.ofList (Markup.Tree.outerAll trees) := by
  obtain ⟨ids, he', hspells⟩ := h.written e he
  have hsize := h.size
  obtain ⟨fuel, hfuel⟩ : ∃ n, d'.size = n + 1 := ⟨d'.size - 1, by omega⟩
  have hread : ids.filterMap (d'.treeWithin fuel) = trees :=
    hspells.filterMap_treeWithin (by omega)
  have htree : d'.tree? p =
      some (.element e.name (assignEach settings e.attributes) none trees) := by
    rw [tree?, hfuel, treeWithin, element?_eq_some_iff.1 he']
    simp only [hraw, hempty, List.nil_append, hread]
  simp only [Document.innerMarkup, htree, Option.map_some, Option.getD_some, Markup.Tree.inner]

namespace Session

variable {script : Script}

theorem bracketed_serializes (hscript : script.Closes 0) (rule : Key.MatchRule)
    (logger : Option LoggerId) :
    Triple (.sure MarkupWriter) (fun w _ => w = .new)
      (RenderM.bracketed root .inner rule logger (script.run MarkupWriter)) fun _ w _ =>
      w.document.innerMarkup root = String.ofList script.outline.markup := by
  obtain ⟨hwritten, heq⟩ := hscript.outline
  have helement : (Document.single "div").element? root = some (.new "div" "") := rfl
  have htip : (Document.single "div").Tip root :=
    ⟨Document.isTree_single "div", ⟨_, helement⟩, rfl⟩
  have htemplate : Triple (.sure MarkupWriter) (fun w _ => w = .new) (script.run MarkupWriter)
      fun _ w _ => ∃ d, (Document.single "div").Writes root script.outline.settings
        script.outline.trees d ∧ w = ⟨d, [root]⟩ := by
    have hrun : script.run MarkupWriter = (script.outline.script .done).run MarkupWriter :=
      congrArg (fun script => Script.run script MarkupWriter) heq
    rw [hrun]
    exact MarkupWriter.run_outline htip hwritten fun d hd => .pure fun _ _ hw => ⟨d, hd, hw⟩
  refine .bracketed (F := fun _ _ => False) (fun w g hw => ?_) htemplate (fun w g hw => ?_)
    fun _ _ => False.elim
  · subst hw
    rfl
  · obtain ⟨d, hd, rfl⟩ := hw
    rw [← script.outline.outerAll_trees]
    exact hd.innerMarkup helement rfl rfl rfl

/-- A script that closes what it opens writes the markup of its tree into a new markup target. -/
theorem innerMarkup_of_closes (hscript : script.Closes 0) (settings : Settings)
    (rule : Key.MatchRule) (logger : Option LoggerId) :
    ∃ report s', (start MarkupWriter.new).pass settings (.bracketed root .inner rule logger script) =
        .ok (report, s') ∧ report.error = none ∧
      s'.target.document.innerMarkup root = String.ofList script.outline.markup :=
  pass_of_sure (s := start MarkupWriter.new) settings (bracketed_serializes hscript rule logger)

/-- Attributes come between children and twice, and a void element has children. -/
def article : Script :=
  .step (.openElement "p" "") <| .step (.setAttribute "class" "draft") <| .step (.text "1 < 2") <|
    .step (.openElement "br" "") <| .step (.text "lost") <| .step .closeElement <|
    .step (.applyStatics [("id", "\"a\""), ("class", "final")]) <| .step (.comment " <i> ") <|
    .step (.print (.sanitizedHtml "<b>raw</b>")) <| .step .closeElement .done

theorem innerMarkup_of_closes_article :
    article.Closes 0 ∧ ∀ settings, ∃ report s',
      (start MarkupWriter.new).pass settings (.bracketed root .inner .keyed none article) =
        .ok (report, s') ∧
      s'.target.document.innerMarkup root =
        "<p class=\"final\" id=\"&quot;a&quot;\">1 &lt; 2<br><!-- <i> -->" ++
          "<html-blob><b>raw</b></html-blob></p>" := by
  have hcloses : article.Closes 0 :=
    .opening "p" "" (.written trivial (.written trivial (.opening "br" "" (.written trivial
      (.closing (.written trivial (.written trivial (.written trivial (.closing .done)))))))))
  refine ⟨hcloses, fun settings => ?_⟩
  obtain ⟨report, s', hpass, -, hmarkup⟩ := innerMarkup_of_closes hcloses settings .keyed none
  refine ⟨report, s', hpass, hmarkup.trans ?_⟩
  decide

end Session

end KeyedRender

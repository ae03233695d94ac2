import KeyedRender.Proofs.Script.Properties
import KeyedRender.Proofs.Session.Guarded

/-!
# Properties of the elements of a session

However a session is reached, an element has the properties that its attributes come with, as long
as these attributes go through the renderer one by one. Static attributes come without.
-/
namespace KeyedRender.Session

variable {s : Session KeyedDom} {name : String} {id : NodeId}

/-- If no pass before has given a node a static attribute of a name, and nor has this one up to a
step, then the node, if it is an element, has just the property that its attribute of this name
comes with. -/
theorem properties_mirror (h : Reached (Avoids (Moment.givesStatic name id)) s) :
    s.target.document.Mirrors name id ∧
    ∀ a before m after, s.momentsOf a = before ++ m :: after →
      (∀ m ∈ before, m.givesStatic name id = false) →
      m.state.renderer.pass.target.document.Mirrors name id := by
  have hmirrors : s.target.document.Mirrors name id :=
    h.guarded (guard_mirrors name id) (Document.restructuring_mirrors name id)
      (Document.holdsAt_single (Element.mirrors_new name) "body")
  exact ⟨hmirrors, fun _ _ _ _ => guarded_of_momentsOf (guard_mirrors name id) hmirrors⟩

def boxPass (script : Script) : Act :=
  .pass ⟨"", .null, loggedText, true⟩ (.bracketed 0 .inner .keyed none
    (.step (.openElement "input" "a") script))

def checkedPass (mark : String) : Act :=
  boxPass (.step (.setAttribute "checked" mark) (.step (.applyStatics [("class", "box")])
    (.step .closeElement .done)))

/-- A box that was checked is found again, and unchecked. -/
theorem properties_mirror_unchecked : ∃ s before m after e e',
    (start .new).perform (checkedPass "") = .ok s ∧
    s.target.document.element? 1 = some e ∧ e.attributes.lookup "checked" = some "" ∧
    e.properties.lookup "checked" = some "true" ∧
    s.momentsOf (checkedPass "false") = before ++ m :: after ∧
    m.state.renderer.pass.target.document.element? 1 = some e' ∧
    e'.attributes.lookup "checked" = some "false" ∧
    e'.properties.lookup "checked" = some "false" := by
  have hfirst : (start .new).Avoids (Moment.givesStatic "checked" 1) (checkedPass "") :=
    show ∀ m ∈ (start .new).momentsOf (checkedPass ""), m.givesStatic "checked" 1 = false by
      decide +kernel
  have hruns : ((start .new).perform (checkedPass "")).toOption.any (fun s =>
      (s.target.document.element? 1).any (fun e => e.attributes.lookup "checked" == some "") &&
      ((s.momentsOf (checkedPass "false")).take 3).all (fun m => !m.givesStatic "checked" 1) &&
      ((s.momentsOf (checkedPass "false")).drop 3).head?.any fun m =>
        (m.state.renderer.pass.target.document.element? 1).any fun e =>
          e.attributes.lookup "checked" == some "false") = true := by decide +kernel
  obtain ⟨s, hs, hruns⟩ := exists_ok_of_any hruns
  simp only [Bool.and_eq_true, Option.any_eq_true, List.head?_eq_some_iff, List.all_eq_true,
    Bool.not_eq_true', beq_iff_eq] at hruns
  obtain ⟨⟨⟨e, he, hmark⟩, hfree⟩, m, ⟨after, hafter⟩, e', he', hmark'⟩ := hruns
  have hsplit : s.momentsOf (checkedPass "false") =
      (s.momentsOf (checkedPass "false")).take 3 ++ m :: after := by
    rw [← hafter, List.take_append_drop]
  obtain ⟨hmirrors, hmoments⟩ := properties_mirror (.act .start hfirst hs)
  have hchecked := Element.mirrors_checked.1 (hmirrors e he)
  have hunchecked := Element.mirrors_checked.1 (hmoments _ _ m after hsplit hfree e' he')
  rw [hmark] at hchecked
  rw [hmark'] at hunchecked
  exact ⟨s, _, m, after, e, e', hs, he, hmark, hchecked, hsplit, he', hmark', hunchecked⟩

theorem properties_not_mirrored_static : ∃ s e,
    (start .new).perform (boxPass (.step (.applyStatics [("value", "v")])
      (.step .closeElement .done))) = .ok s ∧
    s.target.document.element? 1 = some e ∧ e.attributes.lookup "value" = some "v" ∧
    e.properties.lookup "value" = none ∧ ¬ s.target.document.Mirrors "value" 1 := by
  have hruns : ((start .new).perform (boxPass (.step (.applyStatics [("value", "v")])
      (.step .closeElement .done)))).toOption.any (fun s =>
      (s.target.document.element? 1).any fun e => e.attributes.lookup "value" == some "v" &&
        e.properties.lookup "value" == none) = true := by decide +kernel
  obtain ⟨s, hs, hruns⟩ := exists_ok_of_any hruns
  simp only [Option.any_eq_true, Bool.and_eq_true, beq_iff_eq] at hruns
  obtain ⟨e, he, hvalue, hproperty⟩ := hruns
  refine ⟨s, e, hs, he, hvalue, hproperty, fun hmirrors => ?_⟩
  have hsame := Element.mirrors_value.1 (hmirrors e he)
  rw [hvalue, hproperty] at hsame
  cases hsame

end KeyedRender.Session

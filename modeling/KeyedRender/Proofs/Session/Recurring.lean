import KeyedRender.Proofs.Session.Attachment
import KeyedRender.Proofs.Session.Bracketed
import KeyedRender.Proofs.Session.Tree
import KeyedRender.Proofs.Target.Recomposed

/-!
# The same components again

A pass leaves an element whose children host the composition of its script. The same pass follows
that again, and its calls return what they have returned before.
-/
namespace KeyedRender

namespace Session

open RenderM (bind_eq_done)

variable {s s₁ : Session KeyedDom} {root : NodeId} {rule : Key.MatchRule} {script : Script}
  {c : Composition} {t₀ t' : KeyedDom} {g : Registry} {k : Keyring}
  {called : List (ComponentSpec × Option Nat)}

theorem pass_of_yields (settings : Settings) (logger : Option LoggerId)
    (hbegin : s.target.beginPatch root .inner rule = .ok t₀)
    (hscript : Yields (context settings) (script.run KeyedDom) ⟨t₀, s.registry⟩ ⟨.empty, []⟩ ()
      s₁ k called) (hend : s₁.target.endPatch = .ok t') :
    ∃ report g, s.pass settings (.bracketed root .inner rule logger script) =
      .ok (report, ⟨t', g⟩) ∧ report.error = none ∧ s₁.registry.Recounts g ∧
      report.events.filterMap Event.call? = called := by
  obtain ⟨log, hnone, hbracket⟩ := bracketed_of_run (k := k) (m := script.run KeyedDom) settings
    logger hbegin hend
  obtain ⟨queue, log₁, hcalled, hrun⟩ := hscript logger [] log
  obtain ⟨log₂, hcalls, hbracketed⟩ := hbracket hrun
  obtain ⟨g, log₃, hg, hcalls', hflush⟩ := RenderM.synchronizeAll_run
    (show (context settings).rendering = [] from rfl) queue
    (Stage.state ⟨t', k⟩ logger [] s₁.registry log₂)
  have hpatch : RenderM.patch root .inner rule logger (script.run KeyedDom) (context settings)
      s.initial = .done () (Stage.state ⟨t', k⟩ logger [] g log₃) :=
    bind_eq_done.2 ⟨_, _, hbracketed, hflush⟩
  have hpass : s.pass settings (.bracketed root .inner rule logger script) =
      .ok (finish none (Stage.state ⟨t', k⟩ logger [] g log₃)) := by
    rw [initial] at hpatch
    simp only [pass, PassPlan.perform, hpatch]
  refine ⟨_, g, hpass, rfl, hg, ?_⟩
  have hlog : calls log₃ = called := by
    rw [hcalls'.trans hcalls, hcalled, hnone, List.nil_append]
  exact hlog

/-- Between passes, an element whose children host a composition. -/
structure HostsAt (s : Session KeyedDom) (root : NodeId) (c : Composition)
    (called : List (ComponentSpec × Option Nat)) : Prop where
  tree : s.target.document.IsTree
  frames : s.target.frames = []
  mode : s.target.mode = .inner
  linked : Linked s.target.document s.registry
  element : ∃ e, s.target.document.element? root = some e ∧ e.assignAll c.assigned = e ∧
    s.target.document.Hosts s.target.rule s.registry c e.children called

theorem HostsAt.recounted (h : s.HostsAt root c called) (hg : s.registry.Recounts g) :
    HostsAt ⟨s.target, g⟩ root c called := by
  obtain ⟨e, he, hassigned, hhosts⟩ := h.element
  exact ⟨h.tree, h.frames, h.mode, slotInvariant_linked.grows h.linked hg.kept, e, he, hassigned,
    hhosts.congr (fun _ _ _ _ => rfl) hg.grows⟩

theorem outside_nil (s : Session KeyedDom) (below : List Frame) : s.Outside [] below :=
  ⟨by simp, by simp⟩

theorem composes_pass (h : s.target.document.IsTree) (hl : Linked s.target.document s.registry)
    (hroot : (s.target.document.element? root).isSome) (settings : Settings) (rule : Key.MatchRule)
    (c : Composition) :
    ∃ called s₁ t',
      c.Runs (context settings) ⟨s.target.begun root rule, s.registry⟩ called s₁ ∧
      s₁.target.endPatch = .ok t' ∧ t'.rule = rule ∧ HostsAt ⟨t', s₁.registry⟩ root c called := by
  have houtside : Session.Outside (context settings).rendering
      ⟨s.target.begun root rule, s.registry⟩ [] := outside_nil _ _
  obtain ⟨ids, called, s₁, hruns, hadvances, hproceeds, hhosts⟩ := KeyedDom.composable c
    (s := ⟨s.target.begun root rule, s.registry⟩) (KeyedDom.stands_begun h hroot rule) hl houtside
  obtain ⟨e, he⟩ := Option.isSome_iff_exists.1 hroot
  obtain ⟨t', hend, hrule, hframes, hmode, htree, he', hkeeps⟩ := hadvances.ends he
  have hslots := KeyedDom.slotsWithin_apply .endPatch (congrArg (Except.map (none, ·)) hend)
  exact ⟨called, s₁, t', hruns, hend, hrule, htree, hframes, hmode,
    slotInvariant_linked.within hproceeds.linked hslots, _, he',
    Element.assignAll_assignAll c.assigned e ids, hrule ▸ hhosts.congr hkeeps (.refl _)⟩

/-- Between two passes, following the composition that an element hosts gives back the target. -/
theorem HostsAt.runs_again (h : s.HostsAt root c called) (settings : Settings) :
    ∃ s₁, c.Runs (context settings) ⟨s.target.begun root s.target.rule, s.registry⟩ called s₁ ∧
      s₁.target.endPatch = .ok s.target ∧ s.registry.Recounts s₁.registry := by
  obtain ⟨e, he, hassigned, hhosts⟩ := h.element
  have hroot : (s.target.document.element? root).isSome := by
    rw [he]
    rfl
  have hstands := KeyedDom.stands_begun h.tree hroot s.target.rule
  have hchildren : [] ++ e.children <+: s.target.document.children root := by
    simp [Document.children_of_element? he]
  have houtside : Session.Outside (context settings).rendering
      ⟨s.target.begun root s.target.rule, s.registry⟩ [] := outside_nil _ _
  obtain ⟨g, hg, hruns⟩ := KeyedDom.recomposable c
    (s := ⟨s.target.begun root s.target.rule, s.registry⟩) hstands hchildren h.linked houtside
    hhosts
  have hvisited : (s.target.begun root s.target.rule).visiting root c.assigned e.children [] =
      (s.target.begun root s.target.rule).reframed [⟨root, e.children.length⟩] :=
    KeyedDom.visiting_eq_reframed (t := s.target.begun root s.target.rule) he hassigned _ _
  exact ⟨_, hruns, (congrArg KeyedDom.endPatch hvisited).trans
    (KeyedDom.endPatch_visited h.tree h.frames h.mode he), hg⟩

end Session

/-- The calls of a pass with the components that they have returned, by their places among those
that are known. -/
def PassReport.returned (report : PassReport) (g : Registry) :
    List (ComponentSpec × Option ComponentId) :=
  (report.events.filterMap Event.call?).map fun call => (call.1, call.2.bind (g.known[·]?))

theorem Document.Hosts.exists_returned {d : Document} {rule : Key.MatchRule} {g : Registry}
    {c : Composition} {ids : List NodeId} {called : List (ComponentSpec × Option Nat)}
    (h : d.Hosts rule g c ids called) :
    ∃ returned : List (ComponentSpec × ComponentId),
      (called.map fun call => (call.1, call.2.bind (g.known[·]?))) =
        returned.map (Prod.map id some) ∧
      ∀ call ∈ returned, (g.component? call.2).map Component.type = some call.1.type := by
  induction h with
  | done => exact ⟨[], rfl, by simp⟩
  | plain _ _ ih => exact ih
  | element _ _ _ _ _ ihinner ih =>
    obtain ⟨inner, hinner, htypes⟩ := ihinner
    obtain ⟨rest, hrest, htypes'⟩ := ih
    refine ⟨inner ++ rest, by rw [List.map_append, List.map_append, hinner, hrest], ?_⟩
    exact fun call hcall => (List.mem_append.1 hcall).elim (htypes call) (htypes' call)
  | @component spec key rootKey lead inner next texts ids id e slot c called called' _ _ _ _ _ hc
      htype _ hknown _ _ ihinner ih =>
    obtain ⟨inner, hinner, htypes⟩ := ihinner
    obtain ⟨rest, hrest, htypes'⟩ := ih
    have hget : g.known[g.known.idxOf slot.component]? = some slot.component := by
      rw [List.getElem?_eq_getElem (List.idxOf_lt_length_of_mem hknown), List.getElem_idxOf]
    refine ⟨inner ++ (spec, slot.component) :: rest, ?_, fun call hcall => ?_⟩
    · simp only [List.map_append, List.map_cons, hinner, hrest, Option.bind_some, hget]
      rfl
    · rcases List.mem_append.1 hcall with hcall | hcall
      · exact htypes call hcall
      · rcases List.mem_cons.1 hcall with rfl | hcall
        · simp [hc, htype]
        · exact htypes' call hcall

namespace Session

variable {s : Session KeyedDom} {root : NodeId} {script : Script}

/-- A script succeeds if each of its components opens a root of its own and makes its calls inside
of it. The same pass once more succeeds as well: every call returns the component that it has
returned in the first pass, whatever was attached before, and no component is created. -/
theorem pass_again_of_composes (h : Reached Proper s)
    (hroot : (s.target.document.element? root).isSome) (hscript : script.Composes 0 0)
    (settings : Settings) (rule : Key.MatchRule) (logger : Option LoggerId) :
    let plan := PassPlan.bracketed root .inner rule logger script
    ∃ report s' again s'', ∃ returned : List (ComponentSpec × ComponentId),
      s.pass settings plan = .ok (report, s') ∧ report.error = none ∧
      s'.pass settings plan = .ok (again, s'') ∧ again.error = none ∧
      returned.map Prod.fst = script.components ∧
      (∀ call ∈ returned, (s'.registry.component? call.2).map Component.type = some call.1.type) ∧
      report.returned s'.registry = returned.map (Prod.map id some) ∧
      again.returned s''.registry = returned.map (Prod.map id some) ∧
      s''.registry.known = s'.registry.known ∧
      s''.registry.components.size = s'.registry.components.size := by
  intro plan
  have hleads : Leads (fun _ => True) (start .new) s := h.leads
  have hlinked := hleads.keeps slotInvariant_linked linked_start
  obtain ⟨c, k, hc⟩ := hscript.exists_composition ⟨.empty, []⟩
  obtain ⟨called, s₁, t', hruns, hend, rfl, hosts⟩ := composes_pass
    h.atRest.1.tree hlinked hroot settings rule c
  obtain ⟨report, g, hpass, herror, hg, hevents⟩ := pass_of_yields settings logger
    (KeyedDom.beginPatch_inner s.target root _) (hc _ _ _ _ hruns).2 hend
  have hhosts := hosts.recounted hg
  obtain ⟨s₂, hruns', hend', hg₂⟩ := hhosts.runs_again settings
  obtain ⟨again, g', hpass', herror', hg', hevents'⟩ := pass_of_yields settings logger
    (KeyedDom.beginPatch_inner t' root _) (hc _ _ _ _ hruns').2 hend'
  obtain ⟨e, -, -, hhosted⟩ := hhosts.element
  obtain ⟨returned, hreturned, htypes⟩ := hhosted.exists_returned
  have hknown : g'.known = g.known := (hg₂.trans hg').known
  have hspecs : returned.map Prod.fst = script.components := by
    have hfirst := congrArg (List.map Prod.fst) hreturned
    simp only [List.map_map] at hfirst
    exact hfirst.symm.trans (hc _ _ _ _ hruns).1
  refine ⟨report, ⟨t', g⟩, again, ⟨t', g'⟩, returned, hpass, herror, hpass', herror', hspecs,
    htypes, ?_, ?_, hknown, (hg₂.trans hg').size⟩
  · rw [PassReport.returned, hevents]
    exact hreturned
  · rw [PassReport.returned, hevents', hknown]
    exact hreturned

/-- A component in a component under one key, after a text, and beside it one of another type that
has the same tag. -/
def nestedCalls : Script :=
  .step (.pushKey (.text "k")) <|
  .component ⟨.counter, .text "p", "outer", "div", "d", .opened⟩ (.step (.text "lead") .done)
    (.component ⟨.counter, .text "p", "inner", "span", "", .opened⟩ .done
      (.step (.setAttribute "class" "in") .done) .done) <|
  .component ⟨.clash, .text "p", "beside", "div", "d", .opened⟩ .done .done <|
  .step (.popKey none) .done

theorem pass_again_of_composes_nestedCalls :
    Reached Proper (start KeyedDom.new) ∧ nestedCalls.Composes 0 0 ∧
    ∀ settings, ∃ report s' again s'',
      (start KeyedDom.new).pass settings (.bracketed 0 .inner .keyed none nestedCalls) =
        .ok (report, s') ∧
      s'.pass settings (.bracketed 0 .inner .keyed none nestedCalls) = .ok (again, s'') ∧
      again.returned s''.registry = report.returned s'.registry ∧
      s''.registry.components.size = s'.registry.components.size := by
  have hcomposes : nestedCalls.Composes 0 0 :=
    .plain trivial (.component rfl (.plain trivial .done)
      (.component rfl .done (.plain trivial .done) .done)
      (.component rfl .done .done (.plain trivial .done)))
  refine ⟨.start, hcomposes, fun settings => ?_⟩
  have hbody : ((start KeyedDom.new).target.document.element? 0).isSome := rfl
  obtain ⟨report, s', again, s'', returned, hpass, -, hpass', -, -, -, hreturned, hreturned', -,
    hsize⟩ := pass_again_of_composes .start hbody hcomposes settings .keyed none
  exact ⟨report, s', again, s'', hpass, hpass', hreturned'.trans hreturned.symm, hsize⟩

end Session

end KeyedRender

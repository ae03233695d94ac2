import KeyedRender.Proofs.Script.Visiting
import KeyedRender.Proofs.Session.Reentry

/-!
# Visits of a pass

Whatever state a session has come to and whatever the scripts of a pass do, no node is visited
twice in it, and visited siblings stand in the order of the visits. They are all there at the end,
other than those that a script has written raw markup over, behind the back of the renderer.
-/
namespace KeyedRender

open RenderM

namespace Session

variable {s s' : Session KeyedDom}

theorem begin_visited {root : NodeId} (t : KeyedDom) (_ : Registry) (mode : PatchMode)
    (rule : Key.MatchRule) (h : t.HasVisited [] ∧ t.document.isLive root = true) :
    Allows (fun _ => True) (fun r => r.2.HasVisited [])
      (KeyedDom.apply (.beginPatch root mode rule) t) := by
  obtain ⟨n, hn⟩ := Document.isLive_iff.1 h.2
  exact (KeyedDom.visited_beginPatch h.1.ordered (Document.lt_size_of_node? hn) mode rule).map
    fun _ ht => ht

theorem visited_edits : EditInvariant fun t => t.HasVisited [] where
  append h hparent hc := h.append hparent hc
  appendComment parent value h :=
    KeyedDom.visited_calls.call (g := .empty) (.appendComment parent value) trivial h
  remove id h := h.remove id

theorem perform_visited (h : s.target.HasVisited []) {a : Act} (ha : s.Addresses a) :
    Allows (fun _ => True) (fun s' => s'.target.HasVisited []) (s.perform a) := by
  cases a with
  | pass settings plan =>
    exact pass_of_meets (KeyedDom.visited_calls.plan plan begin_visited (fun _ _ hp => hp.1)
      (context settings) s.initial rfl ⟨h, ha⟩)
  | _ => exact visited_edits.perform h ha trivial

theorem Reached.visited (h : Reached Addresses s) : s.target.HasVisited [] := by
  induction h with
  | start => exact KeyedDom.visited_new
  | act _ ha hs ih =>
    have hnext := perform_visited ih ha
    rw [hs] at hnext
    exact hnext

theorem visits_of_endsIn (h : s.target.HasVisited []) {settings : Settings} {plan : PassPlan}
    (ha : s.Addresses (.pass settings plan)) {t : RenderState KeyedDom}
    (ht : (plan.perform KeyedDom (context settings) s.initial).EndsIn t) :
    ∃ visits, KeyedDom.replay t.shared.targetCalls s.target.bare =
        .ok (visits, t.renderer.pass.target.bare) ∧
      s.target.Proceeds (fun c => ∀ m ∈ s.momentsOf (.pass settings plan), ¬ m.Buries c) [] visits
        t.renderer.pass.target := by
  have hinitial : s.initial.shared.targetCalls = [] := rfl
  rcases Visiting.isCourse.started Visiting.callTarget Visiting.setLogger Visiting.logQueueLength
    Visiting.flushQueue Visiting.script plan rfl ht with
    hrun | ⟨mode, rule, answer, u, hbegin, hrun⟩
  · obtain ⟨calls, visits, hlog, hmade⟩ := hrun
    rw [hinitial, List.nil_append] at hlog
    exact ⟨visits, hlog ▸ hmade.replayed, hmade.proceeds [] h⟩
  · obtain ⟨calls, visits, hlog, hmade⟩ := hrun
    have happly : KeyedDom.apply (.beginPatch plan.root mode rule) s.target =
        .ok (answer, u.renderer.pass.target) := (callTarget_done hbegin).1
    have hbegun := begin_visited s.target s.registry mode rule ⟨h, ha⟩
    rw [happly] at hbegun
    have hkept := hmade.proceeds [] hbegun
    rw [targetCalls_callTarget rfl hbegin, hinitial, List.nil_append] at hlog
    exact ⟨visits, hlog ▸ KeyedDom.replay_append (KeyedDom.replay_call happly) hmade.replayed,
      hkept.visited, by simp, hkept.new⟩

/-- The calls of a pass can be made again, one after the other, from the target that it starts
with. They lead to the target that it ends with, up to what is recorded there. The nodes that they
are answered with, by opening elements and writing texts, are all different. Under each parent
those that are listed there stand in the order of the visits. A visited node is there at the end
unless a step of a script has written raw markup straight into an element that it was below. -/
theorem visits_kept (h : Reached Addresses s) {settings : Settings} {plan : PassPlan}
    (ha : s.Addresses (.pass settings plan)) {report : PassReport}
    (hpass : s.pass settings plan = .ok (report, s')) :
    ∃ visits t, KeyedDom.replay (report.events.filterMap Event.targetCall?) s.target =
        .ok (visits, t) ∧ t.bare = s'.target.bare ∧
      visits.Nodup ∧
      (∀ parent, (visits.filter fun v => s'.target.document.parent? v = some parent).Sublist
        (s'.target.document.children parent)) ∧
      ∀ v ∈ visits, s'.target.document.isLive v = true ∨
        ∃ m ∈ s.momentsOf (.pass settings plan), m.Buries v := by
  obtain ⟨t, ht, rfl, hevents⟩ := endsIn_of_pass hpass
  obtain ⟨visits, hreplay, hproceeds⟩ := visits_of_endsIn h.visited ha ht
  rw [KeyedDom.replay_bare] at hreplay
  cases hmade : KeyedDom.replay t.shared.targetCalls s.target with
  | error f =>
    rw [hmade] at hreplay
    cases hreplay
  | ok r =>
    rw [hmade] at hreplay
    have hanswer := Except.ok.inj hreplay
    have hvisits : r.1 = visits := congrArg Prod.fst hanswer
    have hbare : r.2.bare = t.renderer.pass.target.bare := congrArg Prod.snd hanswer
    refine ⟨visits, r.2, ?_, hbare, hproceeds.visited.nodup, hproceeds.visited.listed,
      fun v hv => ?_⟩
    · rw [hevents, ← hvisits]
      exact hmade
    · by_cases hsafe : ∀ m ∈ s.momentsOf (.pass settings plan), ¬ m.Buries v
      · exact .inl (hproceeds.new v hv hsafe)
      · push Not at hsafe
        exact .inr hsafe

/-- Visited nodes are neither visited again nor lost. Whatever state a session has come to, the
calls of a pass whose scripts go through the renderer can be made again, one after the other, from
the target that the pass starts with. They lead to the target that it ends with, up to what is
recorded there. The nodes that they are answered with, by opening elements and writing texts, are
all different and all there at the end, and under each parent they stand in the order of the
visits. -/
theorem visits_stay (h : Reached Addresses s) {settings : Settings} {plan : PassPlan}
    (ha : s.Addresses (.pass settings plan)) (hplan : plan.All Instruction.IsIndirect)
    {report : PassReport} (hpass : s.pass settings plan = .ok (report, s')) :
    ∃ visits t, KeyedDom.replay (report.events.filterMap Event.targetCall?) s.target =
        .ok (visits, t) ∧ t.bare = s'.target.bare ∧
      visits.Nodup ∧
      (∀ v ∈ visits, s'.target.document.isLive v = true) ∧
      ∀ parent, (visits.filter fun v => s'.target.document.parent? v = some parent).Sublist
        (s'.target.document.children parent) := by
  obtain ⟨visits, t, hreplay, hbare, hnodup, horder, hkept⟩ := visits_kept h ha hpass
  refine ⟨visits, t, hreplay, hbare, hnodup, fun v hv => ?_, horder⟩
  refine (hkept v hv).resolve_right fun ⟨m, hm, hburies⟩ => ?_
  obtain ⟨node, hfilled⟩ := hburies.filled
  rw [Moment.filled?_of_isIndirect (fits_of_momentsOf hplan m hm)] at hfilled
  cases hfilled

def listScript (steps : List Instruction) : PassPlan :=
  .bracketed 0 .inner .keyed none (steps.foldr .step .done)

def listSettings : Settings := ⟨"", .null, loggedText, true⟩

def shortList : PassPlan := listScript
  [.openElement "p" "a", .text "x", .closeElement, .openElement "p" "b", .text "y", .closeElement]

def reorderedList : PassPlan := listScript
  [.openElement "p" "b", .text "z", .closeElement, .openElement "p" "a", .closeElement,
    .print (.sanitizedHtml "<i>w</i>")]

/-- Two elements change places, a text is taken and another is given up, and markup is printed. -/
theorem visits_stay_reordered : ∃ s report s' t,
    (start .new).perform (.pass listSettings shortList) = .ok s ∧
    s.pass listSettings reorderedList = .ok (report, s') ∧
    KeyedDom.replay (report.events.filterMap Event.targetCall?) s.target = .ok ([3, 4, 1, 5], t) ∧
    s'.target.document.isLive 2 = false ∧
    [3, 1, 5].Sublist (s'.target.document.children 0) ∧
    ∀ v ∈ [3, 4, 1, 5], s'.target.document.isLive v = true := by
  have hruns : ((start .new).perform (.pass listSettings shortList)).toOption.any (fun s =>
      s.target.document.isLive 0 &&
      (s.pass listSettings reorderedList).toOption.any fun r =>
        (KeyedDom.replay (r.1.events.filterMap Event.targetCall?) s.target).toOption.any
            (fun made => decide (made.1 = [3, 4, 1, 5])) &&
          (!r.2.target.document.isLive 2) &&
          decide ([3, 4, 1, 5].filter (fun v => r.2.target.document.parent? v = some 0) =
            [3, 1, 5])) = true := by decide +kernel
  obtain ⟨s, hs, hruns⟩ := exists_ok_of_any hruns
  obtain ⟨hroot, hruns⟩ := Bool.and_eq_true_iff.1 hruns
  obtain ⟨⟨report, s'⟩, hpass, hruns⟩ := exists_ok_of_any hruns
  simp only [Bool.and_eq_true, Bool.not_eq_true', decide_eq_true_eq] at hruns
  obtain ⟨⟨hreplay, hdead⟩, hlisted⟩ := hruns
  obtain ⟨⟨visits, t⟩, hreplay, hvisits⟩ := exists_ok_of_any hreplay
  obtain rfl := of_decide_eq_true hvisits
  have hstart : (start .new).Addresses (.pass listSettings shortList) := rfl
  have haddressed : s.Addresses (.pass listSettings reorderedList) := hroot
  have hplan : reorderedList.All Instruction.IsIndirect := by
    simp [reorderedList, listScript, PassPlan.All, Script.All, Instruction.IsIndirect]
  obtain ⟨visits', t', hmade, -, -, hkept, horder⟩ :=
    visits_stay (.act .start hstart hs) haddressed hplan hpass
  obtain ⟨rfl, rfl⟩ := Prod.mk.inj (Except.ok.inj (hreplay.symm.trans hmade))
  exact ⟨s, report, s', t, hs, hpass, hreplay, hdead, hlisted ▸ horder 0, hkept⟩

end Session

end KeyedRender

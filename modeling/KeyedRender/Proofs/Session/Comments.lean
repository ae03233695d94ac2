import KeyedRender.Proofs.Script.Comments
import KeyedRender.Proofs.Session.Arrivals
import KeyedRender.Proofs.Session.Tree

/-!
# Comments that outlive a pass

A comment that a pass writes in shelter is there after the pass, and says what was written unless it
was rewritten later in the same pass.
-/
namespace KeyedRender

open RenderM

section

variable {allowed : Instruction → Prop} {w : Bool} {root : NodeId} {mode : PatchMode}
  {rule : Key.MatchRule} {logger : Option LoggerId} {script : Script}
  {R : List (Moment KeyedDom) → RenderState KeyedDom → RenderState KeyedDom → Prop}

theorem Departs.bracketed (hE : Escorts allowed w R) (hs : script.All allowed)
    (hend : Traces w R (callTarget .endPatch) .none) (hflush : Traces w R RenderM.flushQueue .none) :
    Departs w R ((PassPlan.bracketed root mode rule logger script).perform KeyedDom)
      (PassPlan.bracketed root mode rule logger script).moments := by
  have hC := hE.toCourse
  have hscript := script.departs hE hs
  refine .before hC (.after fun _ => .after fun _ => ?_) fun _ => hflush
  exact .before hC hscript.attempt fun result => .before hC hend fun _ => .resume hC result

theorem Departs.conserves {P : KeyedDom → Prop}
    (h : Stable KeyedDom.soundScope 0 fun _ t _ => P t)
    (hend : ∀ t, P t → ∃ t', t.endPatch = .ok t' ∧ P t')
    (hs : script.All Instruction.IsIndirect) :
    Departs true (Conserves fun t _ => P t)
      ((PassPlan.bracketed root mode rule logger script).perform KeyedDom)
      (PassPlan.bracketed root mode rule logger script).moments := by
  have hE : Escorts Instruction.IsIndirect true (Conserves fun t _ => P t) :=
    .of_stable (fun _ hi => hi) (fun _ => trivial) (fun _ => trivial) h.levels
  have hended : ∀ n, Triple ⟨Fault.IsReentered, n, fun t _ => P t⟩ (fun t _ => P t)
      (callTarget .endPatch) fun _ t _ => P t := fun n => by
    refine .callTarget fun t _ hp => ?_
    obtain ⟨t', ht', hp'⟩ := hend t hp
    exact .of_ok_map ht' hp'
  have hflushed : ∀ n, Triple ⟨Fault.IsReentered, n, fun t _ => P t⟩ (fun (t : KeyedDom) _ => P t)
      RenderM.flushQueue fun _ t _ => P t := fun n =>
    .flushQueue (fun _ => trivial) fun _ _ _ hp _ => hp
  exact .bracketed hE hs (.of_triple hended _) (.of_triple hflushed _)

end

namespace Session

variable {s s' : Session KeyedDom} {settings : Settings} {plan : PassPlan} {report : PassReport}

theorem sound_of_mem_momentsOf (h : s.target.Sound) (ha : s.Proper (.pass settings plan))
    {m : Moment KeyedDom} (hm : m ∈ s.momentsOf (.pass settings plan)) :
    m.state.renderer.pass.target.Sound := by
  cases plan with
  | direct root begins logger first second => exact ha.elim
  | bracketed root mode rule logger script =>
    obtain ⟨hroot, hscript⟩ := ha
    simp only [momentsOf, PassPlan.moments, Moments.after] at hm
    cases hbegin : callTarget (.beginPatch root mode rule) (context settings) s.initial with
    | failed e t => simp [hbegin] at hm
    | broken f => simp [hbegin] at hm
    | done node t =>
      rw [hbegin] at hm
      have hsound : t.renderer.pass.target.Sound := by
        have hbegun := begin_sound (t := s.initial.renderer.pass.target) h hroot rule
        rwa [(callTarget_done hbegin).1] at hbegun
      have hm : m ∈ script.moments (context settings)
          { t with renderer := t.renderer.setLogger logger } := hm
      obtain ⟨before, after, hsplit⟩ := List.append_of_mem hm
      have hG : Guides Instruction.IsIndirect true (Conserves fun (t : KeyedDom) _ => t.Sound) :=
        .of_stable (fun _ hi => hi) (fun _ => trivial) KeyedDom.stable_sound.levels
      refine (script.approaches hG hscript _ _ before m after rfl hsplit).course ?_
      rwa [Renderer.target_setLogger]

/-- A comment that a pass writes in shelter is still there after the pass. It has the value that
was written, unless the pass has called the target again to rewrite it. -/
theorem comment_kept (h : Reached Proper s) (ha : s.Proper (.pass settings plan))
    (hpass : s.pass settings plan = .ok (report, s')) {m : Moment KeyedDom}
    (hm : m ∈ s.momentsOf (.pass settings plan)) {value : String} {c : NodeId}
    (hwritten : m.written? = some (value, c)) :
    ∃ u, m.LeadsTo u ∧
      u.renderer.pass.target.document.content? c = some (.comment value) ∧
      s'.target.document.isLive c = true ∧
      (s'.target.document.content? c = some (.comment value) ∨
        ∃ new, Event.target (.setComment c new) ∈ report.events.drop u.shared.log.size) := by
  have hsound := sound_of_mem_momentsOf h.atRest.1 ha hm
  obtain ⟨u, hu, hpassed, hcontent⟩ := Moment.leadsTo_of_written? hwritten hsound
  refine ⟨u, hu, hcontent, ?_⟩
  cases plan with
  | direct root begins logger first second => exact ha.elim
  | bracketed root mode rule logger script =>
    obtain ⟨t, ht, rfl, hevents⟩ := endsIn_of_pass hpass
    obtain ⟨before, after, hsplit⟩ := List.append_of_mem hm
    have hkept : t.renderer.pass.target.Passed c :=
      Departs.conserves (KeyedDom.stable_passed c) (fun _ hp => hp.endPatch) ha.2
        _ _ _ before m after u rfl ht hsplit hu hpassed
    have hupheld : Upholds c value after u t :=
      Departs.bracketed Upholds.escorts script.all_trivial (Upholds.callTarget _)
        Upholds.flushQueue _ _ _ before m after u rfl ht hsplit hu
    obtain ⟨events, hlog, hreads⟩ := hupheld
    refine ⟨hkept.live, ?_⟩
    rcases hreads (Document.reads_of_content? hcontent) with hr | ⟨new, hnew⟩
    · exact .inl (hr.content?_of_isLive hkept.live)
    · refine .inr ⟨new, ?_⟩
      rw [hevents, hlog, ← Array.length_toList, List.drop_left]
      exact hnew

def noteSettings : Settings := ⟨"", .null, loggedText, true⟩

def skippedNote (value : String) : PassPlan :=
  .bracketed 0 .inner .keyed none
    (.step (.openElement "p" "note") (.step .skip (.step (.comment value)
      (.step .closeElement .done))))

/-- Where the children that are left from the pass before are skipped, the comment of the second
pass stays beside the one of the first. -/
theorem comment_kept_skipped : ∃ s report s',
    (start .new).perform (.pass noteSettings (skippedNote "first")) = .ok s ∧
    s.pass noteSettings (skippedNote "second") = .ok (report, s') ∧
    s'.target.document.isLive 3 = true := by
  have hpasses : ((start .new).perform (.pass noteSettings
      (skippedNote "first"))).toOption.any (fun s =>
        (s.target.document.element? 0).isSome &&
        (s.pass noteSettings (skippedNote "second")).toOption.isSome &&
        (s.momentsOf (.pass noteSettings (skippedNote "second"))).any fun m =>
          decide (m.written? = some ("second", 3))) = true := by decide +kernel
  have hfirst : (start .new).Proper (.pass noteSettings (skippedNote "first")) :=
    ⟨rfl, trivial, trivial, trivial, trivial, trivial⟩
  cases hs : (start .new).perform (.pass noteSettings (skippedNote "first")) with
  | error f =>
    rw [hs] at hpasses
    cases hpasses
  | ok s =>
    rw [hs] at hpasses
    simp only [Except.toOption, Option.any_some, Bool.and_eq_true, List.any_eq_true,
      decide_eq_true_eq] at hpasses
    obtain ⟨⟨hroot, hpass⟩, m, hm, hwritten⟩ := hpasses
    cases hs' : s.pass noteSettings (skippedNote "second") with
    | error f =>
      rw [hs'] at hpass
      cases hpass
    | ok r =>
      have hsecond : s.Proper (.pass noteSettings (skippedNote "second")) :=
        ⟨hroot, trivial, trivial, trivial, trivial, trivial⟩
      obtain ⟨u, -, -, hlive, -⟩ := comment_kept (.act .start hfirst hs) hsecond hs' hm hwritten
      exact ⟨s, r.1, r.2, rfl, hs', hlive⟩

/-- Where they are not skipped, the comment of the second pass is erased at once. -/
example :
    let note : String → Act := fun value => .pass noteSettings
      (.bracketed 0 .inner .keyed none
        (.step (.openElement "p" "note") (.step (.comment value) (.step .closeElement .done))))
    (performAll [note "first", note "second"] (start .new)).toOption.map (fun s =>
      (s.target.document.isLive 2, s.target.document.isLive 3)) = some (true, false) := by
  decide +kernel

end Session

end KeyedRender

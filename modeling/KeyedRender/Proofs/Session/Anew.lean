import KeyedRender.Proofs.Script.Mirrored
import KeyedRender.Proofs.Session.Reached
import KeyedRender.Proofs.Target.Anew

/-!
# Passes on new targets

A pass goes the same way on a new keyed target and on a new markup target. It leaves documents
that differ in nothing but what one of the targets alone keeps.
-/
namespace KeyedRender

open MarkupWriter (root)

namespace Anew

def New (t : KeyedDom) (w : MarkupWriter) : Prop := t = .new ∧ w = .new

def SameTree (t : KeyedDom) (w : MarkupWriter) : Prop := t.document.plain = w.document.plain

variable {t : KeyedDom} {w : MarkupWriter}

theorem begins (h : New t w) (rule : Key.MatchRule) :
    Together (.beginPatch root .inner rule) t w fun _ => Anew := by
  obtain ⟨rfl, rfl⟩ := h
  exact ⟨none, KeyedDom.new.begun root rule, MarkupWriter.new, rfl, rfl,
    KeyedDom.sound_begun KeyedDom.sound_new.tree rfl rule, rfl, rfl, List.cons_ne_nil _ _, rfl⟩

/-- Everything below the root counts as visited, so the end of the pass drops nothing. Nothing is
dropped either if the pass ends with elements that are still open. -/
theorem ends (h : Anew t w) : Together .endPatch t w fun _ => SameTree := by
  have hends : ∃ t', t.endPatch = .ok t' ∧ t'.document = t.document := by
    obtain ⟨top, rest, -, hframes, -⟩ := h.exists_frames
    cases rest with
    | nil =>
      obtain ⟨e, he, -⟩ := h.sound.current hframes
      refine ⟨_, KeyedDom.endPatch_eq h.sound hframes h.mode, ?_⟩
      exact KeyedDom.pruned_eq_self he
        (Nat.le_of_eq (congrArg List.length (Document.children_of_element? he).symm))
    | cons id rest =>
      refine ⟨{ t with frames := [] }, ?_, rfl⟩
      simp only [KeyedDom.endPatch, hframes, List.map_cons]
      rfl
  obtain ⟨t', ht', hdocument⟩ := hends
  refine ⟨none, t', w.closeAll, congrArg (Except.map (none, ·)) ht', rfl, ?_⟩
  exact (congrArg Document.plain hdocument).trans h.documents

end Anew

open Anew (New SameTree)

theorem Script.paired_patch {script : Script} (h : script.All Instruction.IsRendered)
    (rule : Key.MatchRule) (logger : Option LoggerId) :
    Paired (Alongside SameTree) (Alongside New)
      (RenderM.patch root .inner rule logger (script.run KeyedDom))
      (RenderM.patch root .inner rule logger (script.run MarkupWriter))
      fun _ => Alongside SameTree := by
  refine .bind (Q := fun _ => Alongside SameTree) ?_ fun _ => .flushQueue
  refine .bind (.callTarget fun t w hnew => Anew.begins hnew rule) fun _ => ?_
  refine .bind (.setLogger logger) fun _ => ?_
  refine .bind (Q := fun _ => Alongside Anew) ?_ fun result => ?_
  · exact (script.inStep h Mirror.anew).attempt.post fun result s s' hs => by
      cases result <;> exact hs
  · exact .bind (.callTarget fun t w hanew => hanew.ends) fun _ => .resume fun _ _ hs => hs

namespace Session

/-- On targets that are new, a pass of any renderer calls gives the same result, with all answers
and all calls to loggers, no answer tells of a node at the pointer, and the documents are the same
node for node without keys, properties, and the container's name. -/
theorem pass_new {script : Script} (h : script.All Instruction.IsRendered) (settings : Settings)
    (rule : Key.MatchRule) (logger : Option LoggerId) (registry : Registry) :
    let plan := PassPlan.bracketed root .inner rule logger script
    (∃ report s s', pass settings plan ⟨KeyedDom.new, registry⟩ = .ok (report, s) ∧
      pass settings plan ⟨MarkupWriter.new, registry⟩ = .ok (report, s') ∧
      (∀ event ∈ report.events, event.IsBlind) ∧
      s.target.document.plain = s'.target.document.plain ∧ s.registry = s'.registry) ∨
    ∃ fault, pass settings plan ⟨KeyedDom.new, registry⟩ = .error fault ∧
      pass settings plan ⟨MarkupWriter.new, registry⟩ = .error fault := by
  intro plan
  have hnew : Alongside New (initial ⟨KeyedDom.new, registry⟩)
      (initial ⟨MarkupWriter.new, registry⟩) :=
    ⟨fun _ hevent => absurd hevent (Array.not_mem_empty _), _, ⟨rfl, rfl⟩, rfl⟩
  have hmatches := Script.paired_patch h rule logger (context settings) _ _ hnew
  have finished : ∀ error {t t'}, Alongside SameTree t t' → ∃ report s s',
      finish error t = (report, s) ∧ finish error t' = (report, s') ∧
      (∀ event ∈ report.events, event.IsBlind) ∧
      s.target.document.plain = s'.target.document.plain ∧ s.registry = s'.registry := by
    rintro error t _ ⟨hblind, w, hdrawn, rfl⟩
    exact ⟨_, _, _, rfl, rfl, fun event hevent => hblind event (Array.mem_toList_iff.1 hevent),
      hdrawn, rfl⟩
  simp only [initial] at hmatches
  simp only [pass, PassPlan.perform, plan]
  generalize RenderM.patch root .inner rule logger (script.run KeyedDom) _ _ = o at hmatches
  generalize RenderM.patch root .inner rule logger (script.run MarkupWriter) _ _ = o' at hmatches
  cases hmatches with
  | done hs =>
    obtain ⟨report, s, s', hfinish, hfinish', h⟩ := finished none hs
    exact .inl ⟨report, s, s', congrArg Except.ok hfinish, congrArg Except.ok hfinish', h⟩
  | failed hs =>
    obtain ⟨report, s, s', hfinish, hfinish', h⟩ := finished (some _) hs
    exact .inl ⟨report, s, s', congrArg Except.ok hfinish, congrArg Except.ok hfinish', h⟩
  | broken => exact .inr ⟨_, rfl, rfl⟩

def leftOpen : Script :=
  .step (.openElement "ul" "list") <| .step (.comment "first") <| .step .pointer <|
  .block (.openServerElement "li" "a" (some (.text "x")))
    (.block .muted (.step (.text "unseen") .done)
      (.step (.print (.sanitizedHtml "<b>one</b>")) .done)) <|
  .step .closeElement <| .step .toDefault .done

theorem pass_new_leftOpen : leftOpen.All Instruction.IsRendered ∧ ∃ report s s',
    pass ⟨"", .null, loggedText, true⟩ (.bracketed 0 .inner .keyed none leftOpen)
      ⟨KeyedDom.new, .empty⟩ = .ok (report, s) ∧
    pass ⟨"", .null, loggedText, true⟩ (.bracketed 0 .inner .keyed none leftOpen)
      ⟨MarkupWriter.new, .empty⟩ = .ok (report, s') ∧
    s.target.document.plain = s'.target.document.plain := by
  have hall : leftOpen.All Instruction.IsRendered := by
    simp [leftOpen, Script.All, Instruction.IsRendered]
  refine ⟨hall, ?_⟩
  obtain ⟨report, s, s', hs, hs', -, htree, -⟩ | ⟨fault, hs, -⟩ :=
    pass_new hall ⟨"", .null, loggedText, true⟩ .keyed none .empty
  · exact ⟨report, s, s', hs, hs', htree⟩
  · have hok : (pass ⟨"", .null, loggedText, true⟩ (.bracketed root .inner .keyed none leftOpen)
        ⟨KeyedDom.new, .empty⟩).isOk = true := by decide +kernel
    rw [hs] at hok
    cases hok

end Session

end KeyedRender

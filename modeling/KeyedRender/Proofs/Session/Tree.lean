import KeyedRender.Proofs.Session.Reached
import KeyedRender.Proofs.Target.Stable

/-!
# The tree of a session

However a session goes on, its document stays a tree, and during a pass the frames fit it. No pass
and no edit faults, but for a component that is entered again.
-/
namespace KeyedRender

open RenderTarget (apply)

/-- Every node but the first is listed once, by its parent alone, and only nodes that are there
are listed. -/
structure Document.Consistent (d : Document) : Prop where
  listed : ∀ n, d.isLive n = true → n ≠ 0 → ∃ p, d.parent? n = some p ∧ d.isLive p = true ∧
    (d.children p).count n = 1 ∧ ∀ q, q ≠ p → n ∉ d.children q
  live : ∀ p n, n ∈ d.children p → d.isLive n = true

theorem Document.IsTree.consistent {d : Document} (h : d.IsTree) : d.Consistent where
  listed n hn hne := by
    obtain ⟨p, hp⟩ := Option.isSome_iff_exists.1 (Document.TreeBut.rooted h hn hne)
    have hmem := h.mem_children hp
    refine ⟨p, hp, isLive_of_mem_children hmem, h.count_eq_one hp, fun q hq hnq => hq ?_⟩
    exact Document.TreeBut.parent_unique h hnq hmem
  live _ _ hn := h.isLive_child hn

namespace KeyedDom

/-- Every frame is at an element, behind no more children than there are, and the element of each
frame is the child just before the place of the frame below it. -/
structure FramesConsistent (t : KeyedDom) : Prop where
  fits : ∀ f ∈ t.frames, (t.document.element? f.parent).isSome ∧
    f.index ≤ (t.document.children f.parent).length
  nested : ∀ i f g, t.frames[i]? = some f → t.frames[i + 1]? = some g →
    0 < g.index ∧ (t.document.children g.parent)[g.index - 1]? = some f.parent

theorem framed_nested {d : Document} {frames : List Frame} (h : Framed d frames) (i : Nat)
    {f g : Frame} (hf : frames[i]? = some f) (hg : frames[i + 1]? = some g) :
    0 < g.index ∧ (d.children g.parent)[g.index - 1]? = some f.parent := by
  induction h generalizing i with
  | none => cases hf
  | base _ => cases hg
  | nested _ hpos hchild _ ih =>
    cases i with
    | zero =>
      cases hf
      cases hg
      exact ⟨hpos, hchild⟩
    | succ i => exact ih i hf hg

theorem Sound.framesConsistent {t : KeyedDom} (h : t.Sound) : t.FramesConsistent :=
  ⟨h.framed.fits, fun i _ _ hf hg => framed_nested h.framed i hf hg⟩

def AtRest (t : KeyedDom) : Prop := t.Sound ∧ t.frames = []

theorem atRest_new : new.AtRest := ⟨sound_new, rfl⟩

end KeyedDom

namespace Session

open KeyedDom (AtRest Begins)

/-- What can be done with a session: a pass over a root that is there, with a script that goes
through the renderer, and edits of nodes that are there. -/
def Proper (s : Session KeyedDom) : Act → Prop
  | .pass _ (.bracketed root mode _ _ script) =>
    Begins s.target.document root mode ∧ script.All Instruction.IsIndirect
  | .pass _ (.direct _ _ _ _ _) => False
  | .appendElement parent _ _ => (s.target.document.element? parent).isSome
  | .appendText parent _ => (s.target.document.element? parent).isSome
  | .appendComment parent _ => (s.target.document.element? parent).isSome
  | .remove node => s.target.document.isLive node = true

variable {s : Session KeyedDom}

theorem begin_sound {t : KeyedDom} (h : t.Sound) {root : NodeId} {mode : PatchMode}
    (hroot : Begins t.document root mode) (rule : Key.MatchRule) :
    Allows Fault.IsReentered (fun r => r.2.Sound) (apply (.beginPatch root mode rule) t) := by
  obtain ⟨t', ht', hs⟩ := h.beginPatch hroot rule
  exact .of_ok_map ht' hs

theorem script_sound {script : Script} (hs : script.All Instruction.IsIndirect) :
    Triple ⟨Fault.IsReentered, 0, fun t _ => t.Sound⟩ (fun t _ => t.Sound) (script.run KeyedDom)
      fun _ t _ => t.Sound :=
  script.steady hs KeyedDom KeyedDom.soundScope 0 _ (fun _ hi => hi) (fun _ _ => trivial)
    KeyedDom.stable_sound

theorem patch_atRest {root : NodeId} {mode : PatchMode} {rule : Key.MatchRule}
    {logger : Option LoggerId} {script : Script} (hs : script.All Instruction.IsIndirect) :
    Triple ⟨Fault.IsReentered, 0, fun t _ => t.AtRest⟩
      (fun t _ => t.Sound ∧ Begins t.document root mode)
      (RenderM.patch root mode rule logger (script.run KeyedDom)) fun _ t _ => t.AtRest := by
  refine .patch (fun _ _ hp => begin_sound hp.1 hp.2 rule) (script_sound hs) (fun t _ hp => ?_)
    (.flushQueue (fun _ => trivial) fun _ _ _ hp _ => hp)
  obtain ⟨t', ht', hrest⟩ := KeyedDom.Sound.endPatch hp
  exact .of_ok_map ht' hrest

theorem begun_sound {root : NodeId} {mode : PatchMode} {rule : Key.MatchRule}
    {logger : Option LoggerId} {script : Script} (hs : script.All Instruction.IsIndirect) :
    Triple ⟨Fault.IsReentered, 0, fun t _ => t.Sound⟩
      (fun t _ => t.Sound ∧ Begins t.document root mode)
      (RenderM.begun root mode rule logger (script.run KeyedDom)) fun _ t _ => t.Sound :=
  .begun (fun _ _ hp => begin_sound hp.1 hp.2 rule) (script_sound hs)

theorem perform_atRest (h : s.target.AtRest) {a : Act} (ha : s.Proper a) :
    Allows Fault.IsReentered (fun s' => s'.target.AtRest) (s.perform a) := by
  cases a with
  | pass settings plan =>
    cases plan with
    | direct root begins logger first second => exact ha.elim
    | bracketed root mode rule logger script =>
      exact pass_of_meets (O := fun t _ => t.AtRest)
        (patch_atRest ha.2 (context settings) s.initial rfl ⟨h.1, ha.1⟩)
  | appendElement parent name key =>
    obtain ⟨e, he⟩ := Option.isSome_iff_exists.1 ha
    have hempty := Document.children_of_new name key
    obtain ⟨r, hr, hrest⟩ := h.1.append h.2 he hempty
    simp only [perform, append, hr, bind, Except.bind, pure, Except.pure, Except.map]
    exact hrest
  | appendText parent value =>
    obtain ⟨e, he⟩ := Option.isSome_iff_exists.1 ha
    have hempty : ∀ e', Content.text value = .element e' → e'.children = [] := by simp
    obtain ⟨r, hr, hrest⟩ := h.1.append h.2 he hempty
    simp only [perform, append, hr, bind, Except.bind, pure, Except.pure, Except.map]
    exact hrest
  | appendComment parent value =>
    obtain ⟨e, he⟩ := Option.isSome_iff_exists.1 ha
    have hcall : apply (.appendComment parent value) s.target = _ :=
      KeyedDom.appendComment_eq he value
    simp only [perform, call, hcall, bind, Except.bind, pure, Except.pure, Except.map]
    exact ⟨KeyedDom.sound_of_isTree (h.1.tree.adopt he (by simp) (Nat.le_refl _)) h.2, h.2⟩
  | remove node =>
    obtain ⟨t', ht', hrest⟩ := h.1.remove h.2 node
    simp only [perform, remove, ht', bind, Except.bind, pure, Except.pure]
    exact hrest

theorem Reached.atRest (h : Reached Proper s) : s.target.AtRest := by
  induction h with
  | start => exact KeyedDom.atRest_new
  | act _ ha hs ih =>
    have hnext := perform_atRest ih ha
    rw [hs] at hnext
    exact hnext

/-- Between passes the document is consistent. In the middle of a pass, wherever its script stops,
so are the document and the frames. And every pass and edit succeeds, but for a component that is
entered again. -/
theorem consistent_of_reached (h : Reached Proper s) :
    s.target.document.Consistent ∧
    (∀ settings root mode rule logger (script : Script) m, Begins s.target.document root mode →
      script.All Instruction.IsIndirect →
      (RenderM.begun root mode rule logger (script.run KeyedDom) (context settings)
        s.initial).EndsIn m →
      m.renderer.pass.target.document.Consistent ∧ m.renderer.pass.target.FramesConsistent) ∧
    ∀ a, s.Proper a → Allows Fault.IsReentered (fun _ => True) (s.perform a) := by
  have hrest := h.atRest
  refine ⟨hrest.1.tree.consistent, ?_, fun a ha => (perform_atRest hrest ha).mono fun _ _ => trivial⟩
  intro settings root mode rule logger script m hroot hscript hm
  have hmeets : Outcome.Meets ⟨Fault.IsReentered, 0, fun t _ => t.Sound⟩ (fun _ t _ => t.Sound)
      (RenderM.begun root mode rule logger (script.run KeyedDom) (context settings) s.initial) :=
    begun_sound hscript (context settings) s.initial rfl ⟨hrest.1, hroot⟩
  have hsound : m.renderer.pass.target.Sound :=
    Outcome.Meets.of_endsIn (I := fun t _ => t.Sound) hmeets hm
  exact ⟨hsound.tree.consistent, hsound.framesConsistent⟩

def listSession : Session KeyedDom :=
  ⟨{ KeyedDom.new with document := ⟨#[
    some ⟨none, .element { Element.new "body" "" with children := [1] }⟩,
    some ⟨some 0, .element (.new "ul" "list")⟩]⟩ }, .empty⟩

theorem consistent_of_reached_list :
    (start KeyedDom.new).Proper (.appendElement 0 "ul" "list") ∧
    (start KeyedDom.new).perform (.appendElement 0 "ul" "list") = .ok listSession ∧
    Begins listSession.target.document 1 .outer ∧
    ∀ settings m, (RenderM.begun 1 .outer .keyed none
      ((Script.step (.openElement "li" "a") .done).run KeyedDom) (context settings)
        listSession.initial).EndsIn m → m.renderer.pass.target.FramesConsistent := by
  have hproper : (start KeyedDom.new).Proper (.appendElement 0 "ul" "list") := rfl
  have hstep : (start KeyedDom.new).perform (.appendElement 0 "ul" "list") = .ok listSession := rfl
  have hroot : Begins listSession.target.document 1 .outer := rfl
  refine ⟨hproper, hstep, hroot, fun settings m hm => ?_⟩
  have hconsistent := consistent_of_reached (.act .start hproper hstep)
  exact (hconsistent.2.1 settings 1 .outer .keyed none (.step (.openElement "li" "a") .done) m hroot
    ⟨trivial, trivial⟩ hm).2

end Session

end KeyedRender

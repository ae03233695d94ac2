import KeyedRender.Proofs.Script.Guarded
import KeyedRender.Proofs.Target.Properties

/-!
# Mirrored properties during a run

Whatever scripts do, a node goes on to mirror a name, unless a step gives it a static attribute of
this name.
-/
namespace KeyedRender

open RenderM

/-- Whether a step gives a node a static attribute of a name that a property comes with. -/
def Moment.givesStatic (name : String) (id : NodeId) (m : Moment KeyedDom) : Bool :=
  match m.question with
  | .instruction (.applyStatics attributes) => m.state.renderer.layers.isEmpty &&
      decide (m.state.renderer.pass.target.current? = some id) && givesProperty name attributes
  | _ => false

namespace RenderM

theorem setAttribute_eq {τ : Type} [RenderTarget τ] (name value : String) :
    setAttribute (τ := τ) name value = (do
      emit (.setAttribute name value)
      match propertyOf? name value with
      | some property => emit (.setProperty name property)
      | none => return ()) := by
  unfold setAttribute propertyOf?
  split
  · rfl
  · split <;> rfl

variable {ctx : Context} {s t : RenderState KeyedDom} {name : String} {id : NodeId}

theorem mirrors_setAttribute {other value : String} (hl : s.renderer.layers = [])
    (h : (setAttribute other value ctx s).EndsIn t)
    (hs : s.renderer.pass.target.document.Mirrors name id) :
    t.renderer.pass.target.document.Mirrors name id := by
  rw [setAttribute_eq] at h
  obtain ⟨e, he⟩ | ⟨_, u, hu, h⟩ := Outcome.EndsIn.bind_iff.1 h
  · obtain ⟨hdone, -⟩ := emit_of_endsIn hl (.inr ⟨e, he⟩)
    exact absurd (hdone.symm.trans he) (by simp)
  obtain ⟨-, _, hattribute⟩ := emit_of_endsIn hl (.inl ⟨_, hu⟩)
  obtain ⟨hset, hlayers⟩ := callTarget_done hattribute
  cases hgives : propertyOf? other value with
  | some property =>
    rw [hgives] at h
    obtain ⟨-, _, hproperty⟩ := emit_of_endsIn (hlayers.trans hl) h
    exact KeyedDom.mirrors_setBoth hset (callTarget_done hproperty).1 hgives hs
  | none =>
    rw [hgives] at h
    obtain rfl := Outcome.EndsIn.done_iff.1 h
    obtain ⟨_, hset, ⟨⟩⟩ := exists_ok_of_map hset
    refine KeyedDom.mirrors_setAttributes hset hs fun _ => ?_
    simp [givesProperty, hgives]

end RenderM

theorem RenderM.not_mirrors_applyStatics {ctx : Context} {s t : RenderState KeyedDom}
    {name : String} {id : NodeId} {e : Element} {attributes : List (String × String)}
    (hgives : (Moment.mk (.instruction (.applyStatics attributes)) ctx s).givesStatic name id = true)
    (he : s.renderer.pass.target.document.element? id = some e)
    (hproperty : e.properties.lookup name = none)
    (ht : ((Instruction.applyStatics attributes).perform ctx s).EndsIn t) :
    ¬ t.renderer.pass.target.document.Mirrors name id := by
  simp only [Moment.givesStatic, Bool.and_eq_true, List.isEmpty_iff, decide_eq_true_eq] at hgives
  obtain ⟨⟨hl, hcurrent⟩, hgives⟩ := hgives
  obtain ⟨-, _, hcall⟩ := emit_of_endsIn hl (Outcome.EndsIn.returning_iff.1 ht)
  exact KeyedDom.not_mirrors_applyStatics (callTarget_done hcall).1 hcurrent he hproperty hgives

theorem guard_mirrors (name : String) (id : NodeId) :
    Guard (Moment.givesStatic name id) (Document.Mirrors name id) where
  call hc h ht := KeyedDom.mirrors_apply hc h ht
  assigned hl ht _ hs := mirrors_setAttribute hl ht hs
  statics {attributes ctx s t} ht := by
    by_cases hl : s.renderer.layers = []
    · intro hfree hs
      have hgives : s.renderer.pass.target.current? = some id →
          givesProperty name attributes = false := by
        simpa [Moment.givesStatic, hl] using hfree
      obtain ⟨-, _, hcall⟩ := emit_of_endsIn hl (Outcome.EndsIn.returning_iff.1 ht)
      obtain ⟨_, hset, hanswer⟩ := exists_ok_of_map (callTarget_done hcall).1
      cases hanswer
      exact KeyedDom.mirrors_setAttributes hset hs hgives
    · have hlayered : Guarded (Moment.givesStatic name id) (Document.Mirrors name id) [] s t :=
        (Traces.applyStatics Guarded.isCourse.layered (Layered.marked Guarded.marked)
          (fun _ hs _ _ _ hl => absurd hs hl) attributes ctx s t rfl ht hl).1
      exact fun _ => hlayered (by simp)
  filled {node markup ctx s t} ht := by
    have hfilled : Guarded (Moment.givesStatic name id) (Document.Mirrors name id) [] s t := by
      refine Traces.calling Guarded.isCourse (fun _ _ h _ => ?_) _ ctx s t rfl ht
      obtain ⟨_, hset, hanswer⟩ := exists_ok_of_map (callTarget_done h).1
      cases hanswer
      exact KeyedDom.mirrors_setInnerMarkup hset
    exact fun _ => hfilled (by simp)
  blob h ht := KeyedDom.mirrors_writeBlob h ht
  record _ _ _ _ hd := hd.updateElement fun _ _ he => he

end KeyedRender

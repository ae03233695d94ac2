import KeyedRender.Proofs.Script.Guarded
import KeyedRender.Proofs.Target.Blobs
import KeyedRender.Proofs.Target.Stable

/-!
# Recorded markup during a run

Whatever scripts do, what is recorded of an element stays its raw markup, unless a step writes
markup straight into this element. Markup that is printed is therefore written where the raw markup
is different, and only there.
-/
namespace KeyedRender

open RenderM

def Moment.filled? (m : Moment KeyedDom) : Option NodeId :=
  match m.question with
  | .instruction (.setInnerMarkup node _) =>
    if m.state.renderer.layers.isEmpty then some node else none
  | _ => none

theorem Moment.filled?_of_isIndirect {m : Moment KeyedDom}
    (h : m.question.Fits Instruction.IsIndirect) : m.filled? = none := by
  unfold Moment.filled?
  split
  · next hm =>
    rw [hm] at h
    exact h.elim
  · rfl

def Moment.fills (id : NodeId) (m : Moment KeyedDom) : Bool := decide (m.filled? = some id)

namespace RenderM

variable {ctx : Context} {s t : RenderState KeyedDom} {id : NodeId}

theorem recorded_callTarget {call : TargetCall} (hc : ¬ call.Fills) {answer : Option NodeId}
    (h : callTarget call ctx s = .done answer t) :
    Guarded (Moment.fills id) (Document.Recorded id) [] s t := by
  have hedited := KeyedDom.keepsMarkup_apply hc s.renderer.pass.target
  rw [show KeyedDom.apply call s.renderer.pass.target = _ from (callTarget_done h).1] at hedited
  exact fun _ hs => hedited.recorded hs

end RenderM

theorem guard_recorded (id : NodeId) : Guard (Moment.fills id) (Document.Recorded id) where
  call {call answer t t'} hc h ht := by
    have hedited := KeyedDom.keepsMarkup_apply hc.not_fills t
    rw [h] at hedited
    exact hedited.recorded ht
  assigned {name value _ _ _} _ ht := Traces.setAttribute Guarded.isCourse Guarded.marked
    (fun _ _ _ hc h => recorded_callTarget hc h) name value _ _ _ rfl ht
  statics {attributes ctx s t} ht := by
    have hset : Guarded (Moment.fills id) (Document.Recorded id) [] s t :=
      Traces.applyStatics Guarded.isCourse Guarded.marked
        (fun _ _ _ hc h => recorded_callTarget hc h) attributes ctx s t rfl ht
    exact fun _ => hset (by simp)
  filled {node markup ctx s t} ht hfree := by
    by_cases hid : node = id
    · have hlayers : s.renderer.layers ≠ [] := by
        simpa [Moment.fills, Moment.filled?, hid] using hfree
      rw [Instruction.perform, onTarget_of_layers hlayers] at ht
      obtain rfl := Outcome.EndsIn.done_iff.1 ht
      exact fun hs => hs
    · have hother : Guarded (Moment.fills id) (Document.Recorded id) [] s t := by
        refine Traces.calling Guarded.isCourse (fun _ _ h _ hs => ?_) _ ctx s t rfl ht
        obtain ⟨_, hset, hanswer⟩ := exists_ok_of_map (callTarget_done h).1
        cases hanswer
        exact KeyedDom.recorded_setInnerMarkup hset hid hs
      exact hother (by simp)
  blob h ht := KeyedDom.recorded_writeBlob h ht
  record _ node _ hc hd := (Document.KeepsMarkup.updateRecord _ node hc).recorded hd

section Printing

variable {ctx : Context} {s u v : RenderState KeyedDom} {node : NodeId} {markup : String}
  (hs : s.renderer.layers = []) (hmarkup : needsMarkup markup = true)
  (hopen : openElement "html-blob" "" ctx s = .done (some node) v)
include hs hmarkup hopen

omit hmarkup in
theorem RenderM.openElement_blob : v.renderer.layers = [] ∧
    s.renderer.pass.target.openElement KeyedDom.blobName (s.renderer.newKey (.text "")) =
      .ok (some node, v.renderer.pass.target) := by
  obtain ⟨hopened, hlayers⟩ := callTarget_done ((emit?_of_layers hs _).symm.trans hopen)
  exact ⟨hlayers.trans hs, hopened⟩

theorem RenderM.print_done (h : print (.sanitizedHtml markup) ctx s = .done () u) : ∃ t closed,
    v.renderer.pass.target.writeBlob node markup = .ok t ∧
    t.skipRest.closeElement = .ok (closed, u.renderer.pass.target) := by
  rw [print, if_pos hmarkup] at h
  obtain ⟨_, _, hblob, h⟩ := bind_eq_done.1 h
  cases hopen.symm.trans hblob
  obtain ⟨_, w, hwrite, h⟩ := bind_eq_done.1 h
  obtain ⟨_, x, hskip, hclose⟩ := bind_eq_done.1 h
  obtain ⟨hwritten, hw⟩ := writeBlob_target (openElement_blob hs hopen).1 (.inl ⟨_, hwrite⟩)
  obtain ⟨-, _, hskip⟩ := emit_of_endsIn hw (.inl ⟨_, hskip⟩)
  obtain ⟨hskipped, hx⟩ := callTarget_done hskip
  have htarget : w.renderer.pass.target.skipRest = x.renderer.pass.target :=
    congrArg Prod.snd (Except.ok.inj hskipped)
  obtain ⟨-, closed, hclose⟩ := emit_of_endsIn (hx.trans hw) (.inl ⟨_, hclose⟩)
  exact ⟨_, closed, hwritten, htarget ▸ (callTarget_done hclose).1⟩

theorem RenderM.print_run (hordered : s.renderer.pass.target.Ordered) :
    ∃ u, print (.sanitizedHtml markup) ctx s = .done () u := by
  obtain ⟨-, hopened⟩ := openElement_blob hs hopen
  obtain ⟨helement, g, below, hframes⟩ := KeyedDom.openElement_some hopened
  obtain ⟨e, he⟩ := Option.isSome_iff_exists.1 helement
  have hv := hordered.openElement KeyedDom.blobName (s.renderer.newKey (.text ""))
  rw [hopened] at hv
  obtain ⟨t, hwrite, hwritten⟩ := KeyedDom.writeBlob_element hv.tree he markup
  obtain ⟨e', he'⟩ := Option.isSome_iff_exists.1 hwritten
  have hclose := KeyedDom.closeElement_skipTo ((KeyedDom.frames_writeBlob hwrite).trans hframes) he'
  obtain ⟨⟨⟨target, keys, logger, queue⟩, layers⟩, ⟨registry, saved, log⟩⟩ := s
  obtain rfl : layers = [] := hs
  obtain ⟨_, t', hbrings, -⟩ := Adds.blob (k := ⟨keys, saved⟩) markup hmarkup .done target _
    (.blob hopened hwrite hclose .done)
  obtain ⟨log', -, hrun⟩ := hbrings ctx logger queue registry log
  exact ⟨_, hrun⟩

end Printing

end KeyedRender

import KeyedRender.Proofs.Target.Attachment
import KeyedRender.Proofs.Target.Moves

/-!
# Calls inside an element

While an element is open and some more are open in it, every call moves a frame at or below it. A
condition that such moves keep is confined to the element: it is kept whatever is called, until the
element is closed.
-/
namespace KeyedRender

open Document (Below)

/-- Some frames above one at a node, over the frames that were there. -/
def Stacked (n : NodeId) (below : List Frame) (k : Nat) (frames : List Frame) : Prop :=
  ∃ upper i, frames = upper ++ ⟨n, i⟩ :: below ∧ upper.length = k

namespace Stacked

variable {n : NodeId} {below frames rest : List Frame} {k : Nat} {f : Frame}

theorem cons (h : Stacked n below k frames) : ∃ f rest, frames = f :: rest := by
  obtain ⟨upper, i, rfl, -⟩ := h
  cases upper with
  | nil => exact ⟨_, _, rfl⟩
  | cons f upper => exact ⟨f, _, rfl⟩

theorem push (h : Stacked n below k frames) (f : Frame) : Stacked n below (k + 1) (f :: frames) := by
  obtain ⟨upper, i, rfl, hlength⟩ := h
  exact ⟨f :: upper, i, rfl, by simp [hlength]⟩

theorem pop (h : Stacked n below (k + 1) (f :: rest)) : Stacked n below k rest := by
  obtain ⟨upper, i, hframes, hlength⟩ := h
  cases upper with
  | nil => simp at hlength
  | cons g upper =>
    simp only [List.cons_append, List.cons.injEq] at hframes
    exact ⟨upper, i, hframes.2, by simpa using hlength⟩

theorem reindex (h : Stacked n below k (f :: rest)) (index : Nat) :
    Stacked n below k ({ f with index := index } :: rest) := by
  obtain ⟨upper, i, hframes, hlength⟩ := h
  cases upper with
  | nil =>
    simp only [List.nil_append, List.cons.injEq] at hframes
    obtain ⟨rfl, rfl⟩ := hframes
    exact ⟨[], index, rfl, hlength⟩
  | cons g upper =>
    simp only [List.cons_append, List.cons.injEq] at hframes
    obtain ⟨rfl, rfl⟩ := hframes
    exact ⟨{ f with index := index } :: upper, i, rfl, by simpa using hlength⟩

theorem below_head {d : Document} (hd : Framed d (f :: rest)) (h : Stacked n below k (f :: rest)) :
    d.Below n f.parent := by
  obtain ⟨upper, i, hframes, -⟩ := h
  induction upper generalizing f rest with
  | nil =>
    simp only [List.nil_append, List.cons.injEq] at hframes
    rw [hframes.1]
    exact .self
  | cons g upper ih =>
    simp only [List.cons_append, List.cons.injEq] at hframes
    obtain ⟨rfl, hrest⟩ := hframes
    cases hd with
    | base _ => simp at hrest
    | nested _ _ hchild hd => exact .child (ih hd hrest) (List.mem_of_getElem? hchild)

end Stacked

namespace KeyedDom

variable {n node : NodeId} {K : KeyedDom → Prop} {below rest : List Frame} {k : Nat}
  {t t' : KeyedDom} {f : Frame}

theorem slotsWithin_apply (call : TargetCall) {r : Option NodeId × KeyedDom}
    (hr : KeyedDom.apply call t = .ok r) : t.document.SlotsWithin r.2.document := by
  have hkeeps := keepsSlots_apply call t
  rw [hr] at hkeeps
  exact hkeeps

/-- A condition that is kept by moves at or below a node. -/
structure Confined (n : NodeId) (K : KeyedDom → Prop) : Prop where
  sound : ∀ {t : KeyedDom}, K t → t.Sound
  moved : ∀ {t t' : KeyedDom} {f : Frame}, K t → t.document.Below n f.parent → t.Moves f t' →
    t.document.SlotsWithin t'.document → K t'

namespace Confined

variable (hK : Confined n K) (h : K t)
include hK h

theorem exists_frame (hs : Stacked n below k t.frames) :
    ∃ f rest, t.frames = f :: rest ∧ t.document.Below n f.parent ∧
      Stacked n below k (f :: rest) := by
  obtain ⟨f, rest, hf⟩ := hs.cons
  have hframed := (hK.sound h).framed
  rw [hf] at hs hframed
  exact ⟨f, rest, hf, hs.below_head hframed, hs⟩

theorem exists_opened (hs : Stacked n below k t.frames) (hn : t.Opened node) :
    ∃ rest, t.frames = ⟨node, 0⟩ :: rest ∧ t.document.Below n node := by
  obtain ⟨rest, hf⟩ := Opened.cons hn
  obtain ⟨f, rest', hf', hp, -⟩ := hK.exists_frame h hs
  obtain ⟨rfl, rfl⟩ := List.cons.inj (hf.symm.trans hf')
  exact ⟨rest, hf, hp⟩

theorem openElement (hs : Stacked n below k t.frames) (name key : String) :
    ∃ id t', t.openElement name key = .ok (some id, t') ∧ K t' ∧
      Stacked n below (k + 1) t'.frames ∧ t'.Opened id ∧
      ∃ p, t.document.Below n p ∧ ListedOrNew t.document p id := by
  obtain ⟨f, rest, hf, hp, hs⟩ := hK.exists_frame h hs
  obtain ⟨id, t', ht', hmoves, hframes, hid⟩ := moves_openElement (hK.sound h) hf name key
  have hslots := slotsWithin_apply (.openElement name key) ht'
  refine ⟨id, t', ht', hK.moved h hp hmoves hslots, ?_, by simp [Opened, hframes], f.parent, hp, hid⟩
  rw [hframes]
  exact (hs.reindex _).push _

theorem closeElement (hs : Stacked n below (k + 1) t.frames) :
    ∃ r, t.closeElement = .ok r ∧ K r.2 ∧ Stacked n below k r.2.frames := by
  obtain ⟨f, rest, hf, hp, hs⟩ := hK.exists_frame h hs
  obtain ⟨f', rest', rfl⟩ := hs.pop.cons
  obtain ⟨id, t', ht', hmoves, hframes⟩ := moves_closeElement (hK.sound h) hf
  have hslots := slotsWithin_apply .closeElement ht'
  exact ⟨(id, t'), ht', hK.moved h hp hmoves hslots, hframes ▸ hs.pop⟩

theorem leave (hs : Stacked n (f :: rest) 0 t.frames) :
    ∃ node t', t.closeElement = .ok (node, t') ∧ K t' ∧ t'.frames = f :: rest := by
  obtain ⟨upper, i, hframes, hlength⟩ := hs
  obtain rfl := List.eq_nil_of_length_eq_zero hlength
  obtain ⟨node, t', ht', hmoves, hframes'⟩ := moves_closeElement (hK.sound h) hframes
  exact ⟨node, t', ht', hK.moved h .self hmoves (slotsWithin_apply .closeElement ht'),
    hframes'⟩

theorem writeText (hs : Stacked n below k t.frames) (value : String) :
    ∃ id t', t.writeText value = .ok (some id, t') ∧ K t' ∧ Stacked n below k t'.frames ∧
      ∃ p, t.document.Below n p ∧ ListedOrNew t.document p id := by
  obtain ⟨f, rest, hf, hp, hs⟩ := hK.exists_frame h hs
  obtain ⟨id, t', ht', hmoves, hframes, hid⟩ := moves_writeText (hK.sound h) hf value
  have hslots := slotsWithin_apply (.text value) ht'
  refine ⟨id, t', ht', hK.moved h hp hmoves hslots, ?_, f.parent, hp, hid⟩
  rw [hframes]
  exact hs.reindex _

theorem assigns (hs : Stacked n below k t.frames) {call : TargetCall} (hc : call.Assigns) :
    ∃ t', apply call t = .ok (none, t') ∧ K t' ∧ t'.frames = t.frames := by
  obtain ⟨f, rest, hf, hp, -⟩ := hK.exists_frame h hs
  obtain ⟨t', ht', hmoves, hframes⟩ := moves_assigns (hK.sound h) hf hc
  exact ⟨t', ht', hK.moved h hp hmoves (slotsWithin_apply call ht'), hframes⟩

theorem skipTo (hs : Stacked n below k t.frames) {target : Nat → Nat → Nat}
    (htarget : ∀ index count, target index count ≤ count) :
    K (t.skipTo target) ∧ Stacked n below k (t.skipTo target).frames := by
  obtain ⟨f, rest, hf, hp, hs⟩ := hK.exists_frame h hs
  obtain ⟨hmoves, index, hframes⟩ := moves_skipTo (hK.sound h) hf htarget
  have hslots : t.document.SlotsWithin (t.skipTo target).document := by
    rw [document_skipTo]
    exact .refl _
  refine ⟨hK.moved h hp hmoves hslots, ?_⟩
  rw [hframes]
  exact hs.reindex _

theorem stays (hcomment : ∀ id value, K (t.setComment id value))
    (hs : Stacked n below k t.frames) {call : TargetCall} (hc : call.Stays) :
    ∃ r, apply call t = .ok r ∧ K r.2 ∧ Stacked n below k r.2.frames := by
  cases call with
  | skip => exact ⟨_, rfl, hK.skipTo h hs fun _ count => Nat.le_refl count⟩
  | skipNode => exact ⟨_, rfl, hK.skipTo h hs fun index count => Nat.min_le_right (index + 1) count⟩
  | applyAttributes => exact ⟨_, rfl, h, hs⟩
  | applyStatics attributes =>
    obtain ⟨f, rest, hf, hp, -⟩ := hK.exists_frame h hs
    obtain ⟨t', ht', hmoves, hframes⟩ := moves_setAttributes (hK.sound h) hf attributes
    have hcall : apply (.applyStatics attributes) t = .ok (none, t') := by
      simp only [apply, ht', Except.map]
    exact ⟨_, hcall, hK.moved h hp hmoves (slotsWithin_apply _ hcall), hframes ▸ hs⟩
  | setComment id value => exact ⟨_, rfl, hcomment id value, frames_setComment t id value ▸ hs⟩
  | _ => exact hc.elim

theorem appendComment (hs : Stacked n below k t.frames) (hnode : t.current? = some node)
    (value : String) :
    ∃ r, t.appendComment node value = .ok r ∧ K r.2 ∧ Stacked n below k r.2.frames := by
  obtain ⟨f, rest, hf, hp, -⟩ := hK.exists_frame h hs
  have hcurrent : t.current? = some f.parent := by simp [current?, hf]
  obtain rfl : f.parent = node := Option.some.inj (hcurrent.symm.trans hnode)
  obtain ⟨id, t', ht', hmoves, hframes⟩ := moves_appendComment (hK.sound h) hf value
  have hslots := slotsWithin_apply (.appendComment f.parent value) ht'
  exact ⟨_, ht', hK.moved h hp hmoves hslots, hframes ▸ hs⟩

theorem setInnerMarkup (hs : Stacked n below k t.frames) (hn : t.Opened node) (markup : String) :
    ∃ t', apply (.setInnerMarkup node markup) t = .ok (none, t') ∧ K t' ∧ t'.frames = t.frames := by
  obtain ⟨rest, hf, hp⟩ := hK.exists_opened h hs hn
  obtain ⟨t', ht', hmoves, hframes⟩ := moves_setInnerMarkup (hK.sound h) hf markup
  have hcall : apply (.setInnerMarkup node markup) t = .ok (none, t') := by
    simp only [apply, ht', Except.map]
  exact ⟨t', hcall, hK.moved h hp hmoves (slotsWithin_apply _ hcall), hframes⟩

end Confined

end KeyedDom

end KeyedRender

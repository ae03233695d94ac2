import KeyedRender.Proofs.Document.Change
import KeyedRender.Target.KeyedDom

/-!
# The frames of a pass

Every frame counts visited children of an element, and the element of each frame is the child
visited last in the frame below it. A target is sound if its document is a tree and its frames
fit the document.
-/
namespace KeyedRender

def Frame.Fits (d : Document) (f : Frame) : Prop :=
  (d.element? f.parent).isSome ∧ f.index ≤ (d.children f.parent).length

/-- Frames that fit a document, innermost first. -/
inductive Framed (d : Document) : List Frame → Prop
  | none : Framed d []
  | base {f : Frame} : f.Fits d → Framed d [f]
  | nested {f g : Frame} {below : List Frame} : f.Fits d → 0 < g.index →
      (d.children g.parent)[g.index - 1]? = some f.parent → Framed d (g :: below) →
      Framed d (f :: g :: below)

namespace Framed

variable {d d' : Document} {f : Frame} {frames below : List Frame}

theorem head (h : Framed d (f :: below)) : f.Fits d := by
  cases h <;> assumption

theorem tail (h : Framed d (f :: below)) : Framed d below := by
  cases h with
  | base => exact .none
  | nested _ _ _ hb => exact hb

theorem fits (h : Framed d frames) : ∀ g ∈ frames, g.Fits d := by
  induction h with
  | none => simp
  | base hf => simpa using hf
  | nested hf _ _ _ ih => exact List.forall_mem_cons.2 ⟨hf, ih⟩

theorem parent_lt (hd : d.IsTree) (h : Framed d (f :: below)) :
    ∀ g ∈ below, (g.parent : Nat) < f.parent := by
  induction below generalizing f with
  | nil => simp
  | cons g rest ih =>
    cases h with
    | nested hf hpos hg hb =>
      have hlt := hd.lt (List.mem_of_getElem? hg)
      exact List.forall_mem_cons.2 ⟨hlt, fun k hk => Nat.lt_trans (ih hb k hk) hlt⟩

theorem parent_ne (hd : d.IsTree) (h : Framed d (f :: below)) :
    ∀ g ∈ below, g.parent ≠ f.parent := fun g hg => Nat.ne_of_lt (h.parent_lt hd g hg)

theorem congr (h : Framed d frames)
    (he : ∀ g ∈ frames, (d'.element? g.parent).isSome ∧ d.children g.parent <+: d'.children g.parent) :
    Framed d' frames := by
  have fits : ∀ {g}, g ∈ frames → g.Fits d → g.Fits d' := fun hg hf =>
    ⟨(he _ hg).1, Nat.le_trans hf.2 (he _ hg).2.length_le⟩
  induction h with
  | none => exact .none
  | base hf => exact .base (fits (List.mem_singleton_self _) hf)
  | @nested f g below hf hpos hg hb ih =>
    refine .nested (fits (List.mem_cons_self ..) hf) hpos ?_
      (ih (fun k hk => he k (List.mem_cons_of_mem _ hk)) fun hk => fits (List.mem_cons_of_mem _ hk))
    obtain ⟨more, hmore⟩ := (he g (by simp)).2
    rw [← hmore]
    exact (List.getElem?_append_left (List.getElem?_eq_some_iff.1 hg).1).trans hg

theorem congr_node? (h : Framed d frames) (hn : ∀ g ∈ frames, d'.node? g.parent = d.node? g.parent) :
    Framed d' frames :=
  h.congr fun g hg => by
    rw [Document.children_eq_of_node? (hn g hg)]
    refine ⟨?_, List.prefix_rfl⟩
    simpa only [Document.element?, Document.content?, hn g hg] using (h.fits g hg).1

theorem replace {i : Nat} (h : Framed d (f :: below)) (hi : i ≤ (d.children f.parent).length) :
    Framed d ({ f with index := i } :: below) := by
  cases h with
  | base hf => exact .base ⟨hf.1, hi⟩
  | nested hf hpos hg hb => exact .nested ⟨hf.1, hi⟩ hpos hg hb

end Framed

namespace KeyedDom

structure Sound (t : KeyedDom) : Prop where
  tree : t.document.IsTree
  framed : Framed t.document t.frames

theorem sound_new : new.Sound := ⟨Document.isTree_single "body", .none⟩

end KeyedDom

end KeyedRender

import KeyedRender.Proofs.Document.Siblings
import KeyedRender.Proofs.Target.Passed

/-!
# Comments that are written

A comment is rewritten if it comes right after the current element, and a new one goes to the end of
that element. The node at the pointer is skipped then, which is the new comment only if there was
nothing at the pointer. Otherwise the comment is left unvisited, and erased when the element is
closed.
-/
namespace KeyedRender

theorem Framed.below_visited {d : Document} {f : Frame} {below : List Frame}
    (h : Framed d (f :: below)) :
    ∀ g ∈ below, ∃ c ∈ (d.children g.parent).take g.index, d.Below c f.parent := by
  induction below generalizing f with
  | nil => simp
  | cons g rest ih =>
    cases h with
    | nested _ hpos hg hb =>
      have hlast : f.parent ∈ (d.children g.parent).take g.index :=
        List.mem_of_getElem? ((List.getElem?_take_of_lt (Nat.sub_one_lt_of_lt hpos)).trans hg)
      refine List.forall_mem_cons.2 ⟨⟨f.parent, hlast, .self⟩, fun k hk => ?_⟩
      obtain ⟨c, hc, hbelow⟩ := ih hb k hk
      exact ⟨c, hc, .child hbelow (List.mem_of_getElem? hg)⟩

namespace KeyedDom

variable {t t' : KeyedDom} {f g : Frame} {below : List Frame} {c : NodeId} {value : String}

theorem Sound.passed_current (h : t.Sound) (hf : t.frames = f :: below) : t.Passed f.parent := by
  obtain ⟨e, he, -⟩ := h.current hf
  have hframed : Framed t.document (f :: below) := hf ▸ h.framed
  refine ⟨h, Document.isLive_of_element? he, fun child ⟨g, hg, hchild⟩ => ?_⟩
  rw [hf] at hg
  rcases List.mem_cons.1 hg with rfl | hg
  · exact not_below_of_lt h.tree (h.tree.lt (List.mem_of_mem_drop hchild))
  · obtain ⟨top, htop, hbelow⟩ := hframed.below_visited g hg
    exact Drawn.not_below_unvisited h.tree htop hchild hbelow

/-- The sibling after the root of a pass is not in reach. -/
theorem Sound.passed_sibling (h : t.Sound) (hf : t.frames = [f])
    (hc : t.document.nextSibling? f.parent = some c) : t.Passed c := by
  obtain ⟨p, hroot, hsibling, hne⟩ := h.tree.of_nextSibling? hc
  refine ⟨h, h.tree.isLive_child hsibling, fun child ⟨g, hg, hchild⟩ hb => ?_⟩
  obtain rfl : g = f := by simpa [hf] using hg
  have hbelow : t.document.Below g.parent c := .head (List.mem_of_mem_drop hchild) hb
  exact h.tree.not_below_siblings hroot hsibling hne hbelow .self

structure Appends (t : KeyedDom) (f : Frame) (value : String) (t' : KeyedDom) : Prop where
  moves : t.Moves f t'
  frames : t'.frames = t.frames
  children : t'.document.children f.parent = t.document.children f.parent ++ [t.document.size]
  node : t'.document.node? t.document.size = some ⟨some f.parent, .comment value⟩

theorem Sound.appends (h : t.Sound) (hf : t.frames = f :: below) (value : String) :
    ∃ t', t.appendComment f.parent value = .ok (some t.document.size, t') ∧
      t.Appends f value t' := by
  obtain ⟨e, he, -⟩ := h.current hf
  have hempty : ∀ e', Content.comment value = .element e' → e'.children = [] := by simp
  obtain ⟨id, t', ht', hmoves, hframes⟩ := moves_appendComment h hf value
  have heq := appendComment_eq he value
  rw [ht'] at heq
  cases heq
  refine ⟨_, ht', hmoves, hframes, ?_, Document.node?_adopt_size he⟩
  rw [document_setDocument, Document.children_adopt he hempty, if_pos rfl,
    List.insertIdx_length_self, Document.children_of_element? he]

theorem Sound.skipped (h : t.Sound) : t.skipped.Sound := h.skipTo fun _ _ => Nat.min_le_right _ _

@[simp] theorem document_skipped (t : KeyedDom) : t.skipped.document = t.document :=
  document_skipTo ..

theorem frames_skipped (hf : t.frames = f :: below) : t.skipped.frames =
    ⟨f.parent, min (f.index + 1) (t.document.children f.parent).length⟩ :: below := by
  rw [KeyedDom.skipped, KeyedDom.skipTo, hf]

theorem Appends.passed (ha : t.Appends f value t') (h : t.Sound) (hf : t.frames = f :: below)
    (hpointer : t.pointer? = none) : t'.skipped.Passed t.document.size := by
  have hall : (t.document.children f.parent).length ≤ f.index := by
    simpa [KeyedDom.pointer?, hf] using hpointer
  have hcurrent := h.passed_current hf
  refine ⟨ha.moves.sound.skipped, ?_, fun child ⟨g, hg, hchild⟩ hb => ?_⟩
  · simp [Document.isLive, ha.node]
  rw [document_skipped] at hchild hb
  rw [frames_skipped (ha.frames.trans hf)] at hg
  rcases List.mem_cons.1 hg with rfl | hg
  · rw [ha.children, List.drop_of_length_le (by simp; omega)] at hchild
    cases hchild
  · rw [children_outer h.tree (hf ▸ h.framed) ha.moves.edits.changes g hg] at hchild
    obtain ⟨n, hn⟩ := Document.isLive_iff.1 (h.tree.isLive_child (List.mem_of_mem_drop hchild))
    have hparent : t'.document.parent? t.document.size = some f.parent := by
      rw [Document.parent?, ha.node]
      rfl
    have habove := ha.moves.sound.tree.below_parent hb
      (Nat.ne_of_gt (Document.lt_size_of_node? hn)) hparent
    rcases ha.moves.edits.below_or_new habove with hold | hnew
    · exact hcurrent.apart child ⟨g, by simp [hf, hg], hchild⟩ hold
    · exact absurd hcurrent.clear.old (Nat.not_lt.2 hnew)

theorem Appends.lost (ha : t.Appends f value t') (hf : t.frames = f :: g :: below)
    (hpointer : t.pointer?.isSome) :
    ∃ t'', t'.skipped.closeElement = .ok (some f.parent, t'') ∧
      t''.document.isLive t.document.size = false := by
  have hleft : f.index < (t.document.children f.parent).length := by
    simpa [KeyedDom.pointer?, hf] using hpointer
  have hframes := frames_skipped (ha.frames.trans hf)
  have hindex : min (f.index + 1) (t'.document.children f.parent).length = f.index + 1 := by
    rw [ha.children, List.length_append]
    exact Nat.min_eq_left (by omega)
  rw [hindex] at hframes
  obtain ⟨e, he, -⟩ := ha.moves.sound.skipped.current hframes
  have hclose := closeElement_eq (f := ⟨f.parent, f.index + 1⟩) ha.moves.sound.skipped hframes
  refine ⟨_, hclose, ?_⟩
  have hunvisited : t.document.size ∈ (t'.skipped.document.children f.parent).drop (f.index + 1) := by
    rw [document_skipped, ha.children, List.drop_append_of_le_length (by omega)]
    simp
  have herased := ((pruned_erasesTo ha.moves.sound.skipped.tree he).2 t.document.size).1
    ⟨_, hunvisited, .self⟩
  rw [Document.isLive, herased]
  rfl

def commentCall (t : KeyedDom) (f : Frame) (value : String) : TargetCall :=
  match (t.document.nextSibling? f.parent).filter t.document.isComment with
  | some existing => .setComment existing value
  | none => .appendComment f.parent value

/-- The node that a comment goes to, if it is out of reach of what a pass erases: the comment after
the outermost element that is open, or a new node where there is nothing at the pointer. -/
def shelter? (t : KeyedDom) : Option NodeId :=
  match t.frames with
  | [] => none
  | f :: below =>
    match (t.document.nextSibling? f.parent).filter t.document.isComment with
    | some c => if below.isEmpty then some c else none
    | none => if t.pointer?.isNone then some t.document.size else none

theorem content?_setComment_self {d : Document} (h : d.isComment c = true) (value : String) :
    (d.setComment c value).content? c = some (.comment value) := by
  have hlive : ∃ n, d.node? c = some n := by
    unfold Document.isComment Document.content? at h
    cases hn : d.node? c with
    | none => simp [hn] at h
    | some n => exact ⟨n, rfl⟩
  obtain ⟨n, hn⟩ := hlive
  rw [Document.setComment, if_pos h, Document.content?, Document.node?_setContent, if_pos rfl, hn]
  rfl

theorem Sound.written (h : t.Sound) (hc : t.shelter? = some c) (value : String) :
    ∃ f below node t', t.frames = f :: below ∧
      apply (t.commentCall f value) t = .ok (node, t') ∧ t'.skipped.Passed c ∧
      t'.skipped.document.content? c = some (.comment value) := by
  cases hf : t.frames with
  | nil => simp [shelter?, hf] at hc
  | cons f below =>
    refine ⟨f, below, ?_⟩
    cases hfilter : (t.document.nextSibling? f.parent).filter t.document.isComment with
    | some existing =>
      simp only [shelter?, hf, hfilter, Option.ite_none_right_eq_some, List.isEmpty_iff,
        Option.some.injEq] at hc
      obtain ⟨rfl, rfl⟩ := hc
      obtain ⟨hnext, hcomment⟩ := Option.filter_eq_some_iff.1 hfilter
      refine ⟨none, t.setComment existing value, rfl, ?_,
        ((h.passed_sibling hf hnext).setComment existing value).skipped, ?_⟩
      · rw [commentCall, hfilter]
        rfl
      · rw [document_skipped, document_setComment]
        exact content?_setComment_self hcomment value
    | none =>
      simp only [shelter?, hf, hfilter, Option.ite_none_right_eq_some, Option.isNone_iff_eq_none,
        Option.some.injEq] at hc
      obtain ⟨hpointer, rfl⟩ := hc
      obtain ⟨t', ht', happends⟩ := h.appends hf value
      refine ⟨some t.document.size, t', rfl, ?_, happends.passed h hf hpointer, ?_⟩
      · rw [commentCall, hfilter]
        exact ht'
      · rw [document_skipped, Document.content?, happends.node]
        rfl

end KeyedDom

end KeyedRender

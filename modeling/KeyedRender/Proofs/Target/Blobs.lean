import KeyedRender.Proofs.Document.Blobs
import KeyedRender.Proofs.Script.Plan
import KeyedRender.Proofs.Target.Ordered
import KeyedRender.Proofs.Target.Served

/-!
# Markup that is written and recorded

Only one call of a target writes markup into an element, and where markup is printed the record is
written with it. So markup that is printed is written exactly where the raw markup was different.
-/
namespace KeyedRender

namespace Document

theorem Recorded.record?_blob {d : Document} {id : NodeId} (h : d.Recorded id) :
    (d.record? id).bind NodeRecord.blob = d.raw? id := by
  unfold record? raw?
  cases he : d.element? id with
  | none => rfl
  | some e => exact h e he

end Document

namespace KeyedDom

open Document (KeepsMarkup)

variable {t t' t₁ t₂ t₃ : KeyedDom} {id node : NodeId} {markup : String} {f g : Frame}
  {below : List Frame}

theorem keepsMarkup_apply {call : TargetCall} (hc : ¬ call.Fills) (t : KeyedDom) :
    Edited KeepsMarkup t.document (fun r => r.2.document) (apply call t) :=
  edited_apply_of_not_fills KeepsMarkup.reshaping call hc t fun _ _ _ => .setComment _ _ _

theorem keepsMarkup_pruned (t : KeyedDom) (f : Frame) :
    t.document.KeepsMarkup (pruned t.document f) := KeepsMarkup.reshaping.prune _ _ _ _

theorem setInnerMarkup_ok (h : t.setInnerMarkup node markup = .ok t') : t' = { t with
    document := (pruned t.document ⟨node, 0⟩).updateElement node fun e =>
      { e with raw := some markup }
    markupWrites := t.markupWrites + 1 } := by
  cases hlisted : t.listedChildren node with
  | error fault => simp [setInnerMarkup, hlisted, bind, Except.bind] at h
  | ok children =>
    have helement := listedChildren_allows t node
    rw [hlisted] at helement
    obtain ⟨e, he, -⟩ := helement
    exact (Except.ok.inj ((setInnerMarkup_eq he markup).symm.trans h)).symm

theorem recorded_setInnerMarkup (h : t.setInnerMarkup node markup = .ok t') (hid : node ≠ id)
    (ht : t.document.Recorded id) : t'.document.Recorded id := by
  obtain rfl := setInnerMarkup_ok h
  exact Document.HoldsAt.updateElement ((keepsMarkup_pruned t _).recorded ht) fun heq =>
    absurd heq hid

theorem writeBlob_cases (h : t.writeBlob node markup = .ok t') :
    ((t.document.record? node).bind NodeRecord.blob = some markup ∧ t' = t) ∨
      ((t.document.record? node).bind NodeRecord.blob ≠ some markup ∧ t' = { t with
        document := (pruned t.document ⟨node, 0⟩).writeMarkup node markup
        markupWrites := t.markupWrites + 1 }) := by
  unfold writeBlob at h
  split at h
  · next hold =>
    cases h
    exact .inl ⟨hold, rfl⟩
  · next hold =>
    cases hset : t.setInnerMarkup node markup with
    | error fault =>
      rw [hset] at h
      cases h
    | ok t₁ =>
      rw [hset] at h
      cases h
      obtain rfl := setInnerMarkup_ok hset
      exact .inr ⟨hold, rfl⟩

theorem recorded_writeBlob (h : t.writeBlob node markup = .ok t')
    (ht : t.document.Recorded id) : t'.document.Recorded id := by
  rcases writeBlob_cases h with ⟨-, rfl⟩ | ⟨-, rfl⟩
  · exact ht
  · exact ((keepsMarkup_pruned t _).recorded ht).writeMarkup node markup

theorem frames_writeBlob (h : t.writeBlob node markup = .ok t') : t'.frames = t.frames := by
  rcases writeBlob_cases h with ⟨-, rfl⟩ | ⟨-, rfl⟩ <;> rfl

theorem writeBlob_element (htree : t.document.IsTree) {e : Element}
    (he : t.document.element? node = some e) (markup : String) :
    ∃ t', t.writeBlob node markup = .ok t' ∧ (t'.document.element? node).isSome := by
  unfold writeBlob
  split
  · exact ⟨t, rfl, by rw [he]; rfl⟩
  · refine ⟨_, by rw [setInnerMarkup_eq he]; rfl, ?_⟩
    rw [document_setDocument]
    show (((pruned t.document ⟨node, 0⟩).writeMarkup node markup).element? node).isSome
    rw [Document.element?_writeMarkup, if_pos rfl, element?_pruned (f := ⟨node, 0⟩) htree he]
    rfl

theorem raw_writeBlob (ht : t.document.Recorded node) (h : t.writeBlob node markup = .ok t')
    {e : Element} (he : t'.document.element? node = some e) : e.raw = some markup := by
  rcases writeBlob_cases h with ⟨hold, rfl⟩ | ⟨-, rfl⟩
  · rwa [ht.record?_blob, Document.raw?, he] at hold
  · rw [Document.element?_writeMarkup, if_pos rfl] at he
    obtain ⟨_, -, rfl⟩ := Option.map_eq_some_iff.1 he
    rfl

theorem markupWrites_writeBlob (ht : t.document.Recorded node)
    (h : t.writeBlob node markup = .ok t') : t'.markupWrites =
      t.markupWrites + if t.document.raw? node = some markup then 0 else 1 := by
  rw [← ht.record?_blob]
  rcases writeBlob_cases h with ⟨hold, rfl⟩ | ⟨hold, rfl⟩
  · rw [if_pos hold, Nat.add_zero]
  · rw [if_neg hold]

theorem markupWrites_insertChild {p : NodeId} {position : Nat} {content : Content}
    (h : t.insertChild p position content = .ok (node, t')) : t'.markupWrites = t.markupWrites := by
  simp only [insertChild, bind, Except.bind] at h
  split at h
  · cases h
  · split at h
    · cases h
    · cases h
      rfl

theorem markupWrites_place {name key : String} (h : t.place f name key = .ok (node, t')) :
    t'.markupWrites = t.markupWrites := by
  rcases place_cases h with ⟨_, _, _, -, -, rfl⟩ | hnew
  · rfl
  · have hinserted := markupWrites_insertChild hnew
    exact hinserted

theorem markupWrites_openElement {name key : String} {answer : Option NodeId}
    (h : t.openElement name key = .ok (answer, t')) : t'.markupWrites = t.markupWrites := by
  unfold openElement at h
  split at h
  · cases h
    rfl
  · next f below _ =>
    cases hplace : t.place f name key with
    | error fault =>
      rw [hplace] at h
      cases h
    | ok r =>
      rw [hplace] at h
      cases h
      have hplaced := markupWrites_place hplace
      exact hplaced

theorem element?_of_dropUnvisited (h : t.dropUnvisited f = .ok t') :
    ∃ e, t.document.element? f.parent = some e := by
  have hlisted := listedChildren_allows t f.parent
  unfold dropUnvisited at h
  cases hl : t.listedChildren f.parent with
  | error fault =>
    rw [hl] at h
    cases h
  | ok children =>
    rw [hl] at hlisted
    obtain ⟨e, he, -⟩ := hlisted
    exact ⟨e, he⟩

theorem closeElement_skipRest {closed : Option NodeId} (hf : t.frames = f :: g :: below)
    (h : t.skipRest.closeElement = .ok (closed, t')) : ∃ e,
      t.document.element? f.parent = some e ∧ t' = { t with
        frames := g :: below, document := t.document.setChildren f.parent e.children } := by
  have hframes : t.skipRest.frames =
      ⟨f.parent, (t.document.children f.parent).length⟩ :: g :: below := by
    simp only [skipRest, skipTo, hf]
  obtain ⟨e, he⟩ : ∃ e, t.document.element? f.parent = some e := by
    unfold closeElement at h
    rw [hframes] at h
    cases hdrop : t.skipRest.dropUnvisited ⟨f.parent, (t.document.children f.parent).length⟩ with
    | error fault =>
      simp only [hdrop] at h
      cases h
    | ok t₁ =>
      have helement := element?_of_dropUnvisited hdrop
      rwa [skipRest, document_skipTo] at helement
  rw [skipRest, closeElement_skipTo hf he] at h
  cases h
  exact ⟨e, he, rfl⟩

theorem printed {key : String} {closed : Option NodeId} (ht : t.document.Recorded node)
    (hopen : t.openElement blobName key = .ok (some node, t₁))
    (hwrite : t₁.writeBlob node markup = .ok t₂)
    (hclose : t₂.skipRest.closeElement = .ok (closed, t₃)) :
    t₃.document.raw? node = some markup ∧ t₃.markupWrites =
      t.markupWrites + if t.document.raw? node = some markup then 0 else 1 := by
  obtain ⟨helement, g, below, hframes⟩ := openElement_some hopen
  have hkeeps : t.document.KeepsMarkup t₁.document := by
    have hcall : ¬ (TargetCall.openElement blobName key).Fills := not_false
    have hedited := keepsMarkup_apply hcall t
    rwa [show apply (.openElement blobName key) t = _ from hopen] at hedited
  have ht₁ : t₁.document.Recorded node := hkeeps.recorded ht
  obtain ⟨e, he, rfl⟩ := closeElement_skipRest ((frames_writeBlob hwrite).trans hframes) hclose
  have hclosed : t₂.document.KeepsMarkup (t₂.document.setChildren node e.children) :=
    KeepsMarkup.reshaping.setChildren _ _ _
  refine ⟨?raw, ?writes⟩
  case raw =>
    have hraw : t₂.document.raw? node = some markup := by
      rw [Document.raw?, he]
      exact raw_writeBlob ht₁ hwrite he
    refine (hclosed.raw?_eq ?_).trans hraw
    rw [Document.isSome_element?_setChildren, he]
    rfl
  case writes =>
    rw [← markupWrites_openElement hopen, ← hkeeps.raw?_eq helement]
    have hwritten := markupWrites_writeBlob ht₁ hwrite
    exact hwritten

end KeyedDom

end KeyedRender

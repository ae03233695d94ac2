import KeyedRender.Proofs.Target.Operations
import KeyedRender.Proofs.Target.Records

/-!
# Elements that are opened and skipped

What holds of these two calls in every state of a target, also where its document is no tree.
-/
namespace KeyedRender

namespace KeyedDom

variable {t t' : KeyedDom} {f : Frame} {name key : String} {id : NodeId}

theorem findMatch?_some {l : List NodeId} {offset : Nat}
    (h : t.findMatch? name key l = .ok (some offset)) :
    ∃ id e, l[offset]? = some id ∧ t.document.content? id = some (.element e) := by
  induction l generalizing offset with
  | nil => cases h
  | cons id rest ih =>
    have later : ∀ r : Except Fault (Option Nat),
        Except.map (Option.map (· + 1)) r = .ok (some offset) →
        ∃ k, r = .ok (some k) ∧ offset = k + 1 := fun r hr => by
      rcases r with f | (_ | k)
      · cases hr
      · cases hr
      · cases hr
        exact ⟨k, rfl, rfl⟩
    rw [findMatch?] at h
    split at h
    · cases h
    · next e he =>
      split at h
      · cases h
        exact ⟨id, e, rfl, he⟩
      · obtain ⟨k, hk, rfl⟩ := later _ h
        exact ih hk
    · obtain ⟨k, hk, rfl⟩ := later _ h
      exact ih hk

theorem insertChild_ok {p : NodeId} {position : Nat} {content : Content}
    (h : t.insertChild p position content = .ok (id, t')) :
    id = t.document.size ∧ t'.frames = t.frames ∧
      ∃ l, t'.document = (t.document.add (some p) content).2.setChildren p l := by
  simp only [insertChild, bind, Except.bind] at h
  split at h
  · cases h
  · next children hchildren =>
    split at h
    · cases h
    · cases h
      exact ⟨rfl, rfl, _, rfl⟩

theorem place_cases (h : t.place f name key = .ok (id, t')) :
    (∃ before after e, (t.document.children f.parent).drop f.index = before ++ id :: after ∧
      t.document.element? id = some e ∧
      t' = t.setDocument (t.document.setChildren f.parent
        ((t.document.children f.parent).take f.index ++ id :: (before ++ after)))) ∨
    t.countCreated.insertChild f.parent f.index (.element (.new name key)) = .ok (id, t') := by
  simp only [place, bind, Except.bind] at h
  split at h
  · cases h
  next offset? hmatch =>
  cases offset? with
  | none => exact .inr h
  | some offset =>
    dsimp only at h
    split at h
    · cases h
    next node hnode =>
    cases h
    left
    obtain ⟨_, e, hid, he⟩ := findMatch?_some hmatch
    rw [List.getElem?_drop, hnode] at hid
    cases hid
    obtain ⟨before, after, hsplit, hlength⟩ : ∃ before after,
        (t.document.children f.parent).drop f.index = before ++ id :: after ∧
          before.length = offset := by
      rw [← List.getElem?_drop] at hnode
      obtain ⟨hlt, hget⟩ := List.getElem?_eq_some_iff.1 hnode
      refine ⟨((t.document.children f.parent).drop f.index).take offset,
        ((t.document.children f.parent).drop f.index).drop (offset + 1), ?_, ?_⟩
      · rw [← hget, List.getElem_cons_drop, List.take_append_drop]
      · exact List.length_take_of_le (Nat.le_of_lt hlt)
    have hvisited : ((t.document.children f.parent).take f.index).length = f.index := by
      have hlt : f.index < (t.document.children f.parent).length := by
        rw [← List.drop_eq_nil_iff.not.trans Nat.not_le, hsplit]
        simp
      exact List.length_take_of_le (Nat.le_of_lt hlt)
    have hmoved := moved_eq ((t.document.children f.parent).take f.index) before after id
    rw [← hsplit, List.take_append_drop, hvisited, hlength] at hmoved
    exact ⟨before, after, e, hsplit, Document.element?_eq_some_iff.2 he, by rw [hmoved]⟩

theorem place_ok (h : t.place f name key = .ok (id, t')) :
    t'.frames = t.frames ∧ (t'.document.element? id).isSome := by
  rcases place_cases h with ⟨before, after, e, -, he, rfl⟩ | hnew
  · refine ⟨rfl, ?_⟩
    rw [document_setDocument, Document.isSome_element?_setChildren, he]
    rfl
  · obtain ⟨rfl, hframes, l, hl⟩ := insertChild_ok hnew
    refine ⟨hframes, ?_⟩
    rw [hl, Document.isSome_element?_setChildren]
    simp [Document.element?, Document.content?, Document.node?_add, countCreated]

theorem openElement_some (h : t.openElement name key = .ok (some id, t')) :
    (t'.document.element? id).isSome ∧ ∃ g below, t'.frames = ⟨id, 0⟩ :: g :: below := by
  unfold openElement at h
  split at h
  · cases h
  · next frame below hframes =>
    cases hplace : t.place frame name key with
    | error e =>
      rw [hplace] at h
      cases h
    | ok r =>
      rw [hplace] at h
      cases h
      obtain ⟨hsame, helement⟩ := place_ok hplace
      exact ⟨helement, _, below, by rw [hsame, hframes]; rfl⟩

theorem setAttribute_ok {value : String} {answer : Option NodeId}
    (h : apply (.setAttribute name value) t = .ok (answer, t')) :
    t'.frames = t.frames ∧
      ∀ id, (t'.document.element? id).isSome = (t.document.element? id).isSome := by
  have hset : ((t.changeCurrent (.setAttribute name value)).bind .ok).map (none, ·) =
    .ok (answer, t') := h
  unfold changeCurrent at hset
  split at hset
  · cases hset
    exact ⟨rfl, fun _ => rfl⟩
  · next frame below _ =>
    cases hlive : t.liveNode frame.parent with
    | error e =>
      rw [hlive] at hset
      cases hset
    | ok n =>
      rw [hlive] at hset
      cases hset
      refine ⟨rfl, fun id => ?_⟩
      rw [document_setDocument, Document.element?_updateElement]
      split
      · next hid => rw [hid, Option.isSome_map]
      · rfl

theorem closeElement_skipTo {g : Frame} {below : List Frame} {e : Element}
    (hf : t.frames = f :: g :: below) (he : t.document.element? f.parent = some e) :
    (t.skipTo fun _ count => count).closeElement = .ok (some f.parent,
      { t with frames := g :: below, document := t.document.setChildren f.parent e.children }) := by
  have hskip : t.skipTo (fun _ count => count) =
      { t with frames := ⟨f.parent, e.children.length⟩ :: g :: below } := by
    simp only [skipTo, hf, Document.children_of_element? he]
  have hlisted : KeyedDom.listedChildren
      { t with frames := ⟨f.parent, e.children.length⟩ :: g :: below } f.parent = .ok e.children :=
    listedChildren_eq he
  have hdrop : ∀ d : Document, d.dropAll [] = d := fun d => rfl
  simp only [hskip, closeElement, dropUnvisited, bind, Except.bind, hlisted, Nat.lt_irrefl,
    if_false, List.take_length, List.drop_length, hdrop, pure, Except.pure, setDocument]

end KeyedDom

end KeyedRender

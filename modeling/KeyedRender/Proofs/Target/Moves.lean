import KeyedRender.Proofs.Target.Drawing
import KeyedRender.Proofs.Target.Stable

/-!
# What calls do at the innermost frame

Each call edits what is below the innermost element, and moves its frame, or opens or closes one.
-/
namespace KeyedRender.KeyedDom

variable {t t' : KeyedDom} {f g : Frame} {below : List Frame}

/-- A target that was changed below the element of a frame only. -/
structure Moves (t : KeyedDom) (f : Frame) (t' : KeyedDom) : Prop where
  sound : t'.Sound
  mode : t'.mode = t.mode
  edits : t.document.EditsBelow f.parent t'.document

def ListedOrNew (d : Document) (p id : NodeId) : Prop := id ∈ d.children p ∨ id = d.size

theorem moves_openElement (h : t.Sound) (hf : t.frames = f :: below) (name key : String) :
    ∃ id t', t.openElement name key = .ok (some id, t') ∧ t.Moves f t' ∧
      t'.frames = ⟨id, 0⟩ :: { f with index := f.index + 1 } :: below ∧
      ListedOrNew t.document f.parent id := by
  obtain ⟨r, hr, hsound⟩ := h.openElement name key
  obtain ⟨e, he, hindex⟩ := h.current hf
  rcases t.exists_match_or_forall name key (e.children.drop f.index) with
    ⟨before, id, after, hsplit, hid, hbefore⟩ | hnone
  · have heq := openElement_found h hf he hsplit hid hbefore
    have hsub : e.children.take f.index ++ id :: (before ++ after) ⊆ e.children := by
      intro c hc
      rw [← List.take_append_drop f.index e.children, hsplit]
      simp only [List.mem_append, List.mem_cons] at hc ⊢
      tauto
    rw [heq] at hr
    cases hr
    refine ⟨_, _, heq, ⟨hsound, rfl, .setChildren he hsub⟩, rfl, .inl ?_⟩
    rw [Document.children_of_element? he]
    exact hsub (by simp)
  · have heq := openElement_new h hf he hnone
    have hempty := Document.children_of_new name key
    rw [heq] at hr
    cases hr
    exact ⟨_, _, heq, ⟨hsound, rfl, .adopt he hempty hindex⟩, rfl, .inr rfl⟩

theorem moves_closeElement (h : t.Sound) (hf : t.frames = f :: g :: below) :
    ∃ id t', t.closeElement = .ok (id, t') ∧ t.Moves f t' ∧ t'.frames = g :: below := by
  obtain ⟨r, hr, hsound⟩ := h.closeElement
  obtain ⟨e, he, hindex⟩ := h.current hf
  have heq := closeElement_eq h hf
  rw [heq] at hr
  cases hr
  exact ⟨_, _, heq, ⟨hsound, rfl, (Document.Revises.pruned h.tree he hindex).edits⟩, rfl⟩

theorem moves_writeText (h : t.Sound) (hf : t.frames = f :: below) (value : String) :
    ∃ id t', t.writeText value = .ok (some id, t') ∧ t.Moves f t' ∧
      t'.frames = { f with index := f.index + 1 } :: below ∧
      ListedOrNew t.document f.parent id := by
  obtain ⟨r, hr, hsound⟩ := h.writeText value
  obtain ⟨e, he, hindex⟩ := h.current hf
  by_cases hold : ∃ id old, e.children[f.index]? = some id ∧
      t.document.content? id = some (.text old)
  · obtain ⟨id, old, hid, hc⟩ := hold
    have heq := writeText_found hf he hid hc value
    rw [heq] at hr
    cases hr
    refine ⟨_, _, heq, ⟨hsound, rfl, (Document.Revises.setText h.tree he hid hc value).edits⟩, rfl,
      .inl ?_⟩
    rw [Document.children_of_element? he]
    exact List.mem_of_getElem? hid
  · push Not at hold
    have heq := writeText_new h hf he (fun id old => hold id old) value
    have hempty : ∀ e', Content.text value = .element e' → e'.children = [] := by simp
    rw [heq] at hr
    cases hr
    exact ⟨_, _, heq, ⟨hsound, rfl, .adopt he hempty hindex⟩, rfl, .inr rfl⟩

theorem moves_update (h : t.Sound) (f : Frame) {change : Element → Element}
    (hchildren : ∀ e, (change e).children = e.children)
    (hhead : ∀ e : Element, e.SameHead (change e)) :
    t.Moves f (t.setDocument (t.document.updateElement f.parent change)) :=
  ⟨h.updateElement f.parent hchildren, rfl, .updateElement _ _ hchildren hhead⟩

theorem Moves.trans (h : t.Moves f t') {t'' : KeyedDom} (h' : t'.Moves f t'') : t.Moves f t'' :=
  ⟨h'.sound, h'.mode.trans h.mode,
    h.edits.trans (Document.TreeBut.pointsLater h.sound.tree) .self h'.edits⟩

theorem moves_setAttributes (h : t.Sound) (hf : t.frames = f :: below)
    (attributes : List (String × String)) : ∃ t', t.setAttributes attributes = .ok t' ∧
      t.Moves f t' ∧ t'.frames = t.frames := by
  induction attributes generalizing t with
  | nil => exact ⟨t, rfl, ⟨h, rfl, .refl _ _⟩, rfl⟩
  | cons a rest ih =>
    have hfirst : t.Moves f (t.setDocument
        (t.document.updateElement f.parent (Element.setAttribute a.1 a.2))) :=
      moves_update h f (fun _ => rfl) fun _ => ⟨rfl, rfl, rfl⟩
    obtain ⟨t', ht', hmoves, hframes⟩ := ih hfirst.sound hf
    refine ⟨t', ?_, hfirst.trans hmoves, hframes⟩
    simp only [KeyedDom.setAttributes, List.foldlM_cons, changeCurrent_eq h hf, bind, Except.bind]
    exact ht'

theorem moves_assigns (h : t.Sound) (hf : t.frames = f :: below) {call : TargetCall}
    (hc : call.Assigns) : ∃ t', apply call t = .ok (none, t') ∧ t.Moves f t' ∧
      t'.frames = t.frames := by
  cases call with
  | setAttribute name value =>
    obtain ⟨t', ht', hmoves, hframes⟩ := moves_setAttributes h hf [(name, value)]
    exact ⟨t', by simp only [apply, ht', Except.map], hmoves, hframes⟩
  | setProperty name value =>
    have hmoves : t.Moves f (t.setDocument
        (t.document.updateElement f.parent (Element.setProperty name value.toText))) :=
      moves_update h f (fun _ => rfl) fun _ => ⟨rfl, rfl, rfl⟩
    exact ⟨_, by simp only [apply, changeCurrent_eq h hf, Except.map], hmoves, rfl⟩
  | _ => exact hc.elim

theorem moves_skipTo (h : t.Sound) (hf : t.frames = f :: below) {target : Nat → Nat → Nat}
    (hle : ∀ index count, target index count ≤ count) :
    t.Moves f (t.skipTo target) ∧ ∃ index, (t.skipTo target).frames = ⟨f.parent, index⟩ :: below := by
  refine ⟨⟨h.skipTo hle, ?_, ?_⟩, ?_⟩
  · simp [skipTo, hf]
  · have hdocument : (t.skipTo target).document = t.document := by simp [skipTo, hf]
    rw [hdocument]
    exact .refl _ _
  · simp [skipTo, hf]

theorem moves_setInnerMarkup (h : t.Sound) {node : NodeId} (hf : t.frames = ⟨node, 0⟩ :: below)
    (markup : String) : ∃ t', t.setInnerMarkup node markup = .ok t' ∧ t.Moves ⟨node, 0⟩ t' ∧
      t'.frames = t.frames := by
  obtain ⟨e, he, hindex⟩ := h.current hf
  obtain ⟨t', ht', hsound, hframes⟩ := h.setInnerMarkup hf markup
  have heq := setInnerMarkup_eq he markup
  rw [heq] at ht'
  cases ht'
  have hpruned : t.document.EditsBelow node (pruned t.document ⟨node, 0⟩) :=
    (Document.Revises.pruned h.tree (f := ⟨node, 0⟩) he hindex).edits
  have hlater := Document.TreeBut.pointsLater (isTree_pruned h.tree (f := ⟨node, 0⟩) he)
  refine ⟨_, heq, ⟨hsound, rfl, hpruned.trans hlater .self ?_⟩, rfl⟩
  exact .updateElement _ _ (fun _ => rfl) fun _ => ⟨rfl, rfl, rfl⟩

theorem moves_appendComment (h : t.Sound) (hf : t.frames = f :: below) (value : String) :
    ∃ id t', t.appendComment f.parent value = .ok (id, t') ∧ t.Moves f t' ∧
      t'.frames = t.frames := by
  obtain ⟨e, he, -⟩ := h.current hf
  obtain ⟨r, hr, hsound⟩ := h.appendComment f.parent value
  have heq := appendComment_eq he value
  rw [heq] at hr
  cases hr
  have hempty : ∀ e', Content.comment value = .element e' → e'.children = [] := by simp
  exact ⟨_, _, heq, ⟨hsound, rfl, .adopt he hempty (Nat.le_refl _)⟩, rfl⟩

end KeyedRender.KeyedDom

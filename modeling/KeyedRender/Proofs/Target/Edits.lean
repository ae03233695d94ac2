import KeyedRender.Proofs.Target.Soundness

/-!
# Passes and edits on a sound target

A pass can begin at an element that is there, or at a node with a parent, and its end leaves no
frames. Between passes nodes are added to elements, and a node is removed with everything below
it. None of this faults, and the target stays sound.
-/
namespace KeyedRender.KeyedDom

variable {t : KeyedDom} {id : NodeId} {e : Element}

theorem Sound.setInnerMarkup (h : t.Sound) {below : List Frame} (hf : t.frames = ⟨id, 0⟩ :: below)
    (markup : String) : ∃ t', t.setInnerMarkup id markup = .ok t' ∧ t'.Sound ∧
      t'.frames = t.frames := by
  obtain ⟨e, he, -⟩ := h.current hf
  have hframed : Framed t.document (⟨id, 0⟩ :: below) := hf ▸ h.framed
  have hpruned : Sound { t with document := pruned t.document ⟨id, 0⟩ } := by
    refine ⟨isTree_pruned h.tree he, ?_⟩
    rw [hf]
    refine framed_innermost h.tree hframed (changesBelow_pruned h.tree he) ⟨?_, Nat.zero_le _⟩
    rw [element?_pruned h.tree he]
    rfl
  have hraw : Sound { t with
      document := (pruned t.document ⟨id, 0⟩).updateElement id fun e =>
        { e with raw := some markup } } :=
    hpruned.updateElement id fun _ => rfl
  exact ⟨_, setInnerMarkup_eq he markup, ⟨hraw.tree, hraw.framed⟩, rfl⟩

/-- What a pass can begin at. -/
def Begins (d : Document) (root : NodeId) : PatchMode → Prop
  | .inner => (d.element? root).isSome
  | .outer => (d.parent? root).isSome

theorem firstFrame_fits (h : t.Sound) {root : NodeId} {mode : PatchMode}
    (hroot : Begins t.document root mode) :
    ∃ f, t.firstFrame root mode = .ok f ∧ f.Fits t.document := by
  cases mode with
  | inner => exact ⟨⟨root, 0⟩, rfl, hroot, Nat.zero_le _⟩
  | outer =>
    obtain ⟨p, hp⟩ := Option.isSome_iff_exists.1 hroot
    obtain ⟨n, hn, hnp⟩ := Option.bind_eq_some_iff.1 hp
    have hmem : root ∈ t.document.children p := h.tree.mem_children hp
    obtain ⟨e, he, -⟩ := Document.element?_of_mem_children hmem
    obtain ⟨i, hi⟩ : ∃ i, (t.document.children p).findIdx? (· = root) = some i := by
      refine Option.isSome_iff_exists.1 ?_
      rw [List.findIdx?_isSome, List.any_eq_true]
      exact ⟨root, hmem, by simp⟩
    have hlt : i < (t.document.children p).length := (List.findIdx?_eq_some_iff_getElem.1 hi).1
    refine ⟨⟨p, i⟩, ?_, by rw [he]; rfl, Nat.le_of_lt hlt⟩
    simp only [firstFrame, liveNode_eq hn, hnp, hi, bind, Except.bind, pure, Except.pure]

theorem Sound.beginPatch (h : t.Sound) {root : NodeId} {mode : PatchMode}
    (hroot : Begins t.document root mode) (rule : Key.MatchRule) :
    ∃ t', t.beginPatch root mode rule = .ok t' ∧ t'.Sound := by
  obtain ⟨f, hf, hfits⟩ := firstFrame_fits h hroot
  refine ⟨{ t with frames := [f], mode := mode, rule := rule }, ?_, h.tree, .base hfits⟩
  simp only [KeyedDom.beginPatch, hf, bind, Except.bind, pure, Except.pure]

theorem sound_of_isTree (h : t.document.IsTree) (hf : t.frames = []) : t.Sound :=
  ⟨h, hf ▸ .none⟩

theorem Sound.endPatch (h : t.Sound) :
    ∃ t', t.endPatch = .ok t' ∧ t'.Sound ∧ t'.frames = [] := by
  have stop : ∀ t : KeyedDom, t.document.IsTree → ({ t with frames := [] } : KeyedDom).Sound :=
    fun _ ht => sound_of_isTree ht rfl
  match hf : t.frames, hm : t.mode with
  | [f], .inner =>
    obtain ⟨e, he, -⟩ := h.current hf
    exact ⟨_, endPatch_eq h hf hm, stop (t.setDocument (pruned t.document f))
      (isTree_pruned h.tree he), rfl⟩
  | [f], .outer =>
    refine ⟨_, ?_, stop t h.tree, rfl⟩
    simp only [KeyedDom.endPatch, hf, hm, bind, Except.bind, pure, Except.pure]
  | [], _ =>
    refine ⟨_, ?_, stop t h.tree, rfl⟩
    simp only [KeyedDom.endPatch, hf, bind, Except.bind, pure, Except.pure]
  | _ :: _ :: _, _ =>
    refine ⟨_, ?_, stop t h.tree, rfl⟩
    simp only [KeyedDom.endPatch, hf, bind, Except.bind, pure, Except.pure]

theorem Sound.append (h : t.Sound) (hf : t.frames = []) (he : t.document.element? id = some e)
    {content : Content} (hc : ∀ e, content = .element e → e.children = []) :
    ∃ r, t.append id content = .ok r ∧ r.2.Sound ∧ r.2.frames = [] := by
  have htree := h.tree.adopt he hc (Nat.le_refl _)
  refine ⟨(t.document.size, t.setDocument (t.document.adopt id e.children.length content)), ?_,
    sound_of_isTree htree hf, hf⟩
  rw [KeyedDom.append, Document.children_of_element? he]
  exact insertChild_eq he (Nat.le_refl _) content

theorem treeBut_root (h : t.document.IsTree) (hp : t.document.parent? id = none) :
    t.document.TreeBut [id] := by
  refine ⟨h.older, fun hm => ⟨h.parent hm, ?_⟩, fun hq _ => h.count_eq_one hq,
    Document.TreeBut.rooted h⟩
  rw [List.mem_singleton]
  rintro rfl
  rw [h.parent hm] at hp
  cases hp

theorem Sound.remove (h : t.Sound) (hf : t.frames = []) (id : NodeId) :
    ∃ t', t.remove id = .ok t' ∧ t'.Sound ∧ t'.frames = [] := by
  cases hp : t.document.parent? id with
  | none =>
    have htree := (treeBut_root h.tree hp).dropAll
    refine ⟨t.setDocument (t.document.dropAll [id]), ?_, sound_of_isTree htree hf, hf⟩
    simp only [KeyedDom.remove, hp, pure, Except.pure]
  | some p =>
    have hmem : id ∈ t.document.children p := h.tree.mem_children hp
    obtain ⟨e, he, -⟩ := Document.element?_of_mem_children hmem
    have htree := h.tree.prune he (h.tree.perm_without hmem)
    rw [Document.children_of_element? he] at htree
    refine ⟨t.setDocument ((t.document.setChildren p (e.children.filter (· ≠ id))).dropAll [id]), ?_,
      sound_of_isTree htree hf, hf⟩
    simp only [KeyedDom.remove, hp, listedChildren_eq he, bind, Except.bind, pure, Except.pure]

end KeyedRender.KeyedDom

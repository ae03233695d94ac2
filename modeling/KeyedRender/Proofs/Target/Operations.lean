import KeyedRender.Proofs.Target.Frames

/-!
# What each call does to a sound target

On a sound target no call faults, and its result is given by a change of one child list. Opening
takes the first child not yet visited that is accepted, or a new node, and puts it behind the
visited ones.
-/
namespace KeyedRender.KeyedDom

variable {t : KeyedDom} {p : NodeId} {e : Element} {f : Frame} {below : List Frame}

theorem listedChildren_eq (he : t.document.element? p = some e) :
    t.listedChildren p = .ok e.children := by
  unfold listedChildren
  rw [Document.element?_eq_some_iff.1 he]

theorem liveNode_eq {id : NodeId} {n : Node} (hn : t.document.node? id = some n) :
    t.liveNode id = .ok n := by
  unfold liveNode
  rw [hn]

theorem insertChild_eq (he : t.document.element? p = some e) {position : Nat}
    (hpos : position ≤ e.children.length) (content : Content) :
    t.insertChild p position content =
      .ok (t.document.size, t.setDocument (t.document.adopt p position content)) := by
  have hne : p ≠ t.document.size := Nat.ne_of_lt (Document.lt_size_of_element? he)
  have hadd : (t.setDocument (t.document.add (some p) content).2).listedChildren p =
      .ok e.children :=
    listedChildren_eq (by rw [document_setDocument, Document.element?_add _ _ _ hne, he])
  have hlt : ¬ e.children.length < position := Nat.not_lt.2 hpos
  simp only [insertChild, hadd, bind, Except.bind, if_neg hlt, pure, Except.pure,
    Document.adopt, Document.add_fst, Document.children_of_element? he]

def pruned (d : Document) (f : Frame) : Document :=
  (d.setChildren f.parent ((d.children f.parent).take f.index)).dropAll
    ((d.children f.parent).drop f.index)

theorem dropUnvisited_eq (hf : f.Fits t.document) :
    t.dropUnvisited f = .ok (t.setDocument (pruned t.document f)) := by
  obtain ⟨hsome, hindex⟩ := hf
  obtain ⟨e, he⟩ := Option.isSome_iff_exists.1 hsome
  rw [Document.children_of_element? he] at hindex
  have hlt : ¬ e.children.length < f.index := Nat.not_lt.2 hindex
  simp only [dropUnvisited, listedChildren_eq he, bind, Except.bind, if_neg hlt, pure, Except.pure,
    pruned, Document.children_of_element? he]

def accepts (t : KeyedDom) (name key : String) (id : NodeId) : Bool :=
  match t.document.element? id with
  | some e => t.rule.accepts name e.name key e.key
  | none => false

theorem findMatch?_eq {name key : String} {l : List NodeId}
    (hl : ∀ id ∈ l, t.document.isLive id = true) :
    t.findMatch? name key l = .ok (l.findIdx? (t.accepts name key)) := by
  induction l with
  | nil => rfl
  | cons id rest ih =>
    obtain ⟨hid, hrest⟩ := List.forall_mem_cons.1 hl
    obtain ⟨n, hn⟩ := Document.isLive_iff.1 hid
    have hc : t.document.content? id = some n.content := by simp [Document.content?, hn]
    rw [List.findIdx?_cons]
    cases hcontent : n.content with
    | element e =>
      have he : t.document.element? id = some e :=
        Document.element?_eq_some_iff.2 (hcontent ▸ hc)
      simp only [findMatch?, hc, hcontent, accepts, he]
      split
      · rfl
      · rw [ih hrest]
        rfl
    | text value =>
      simp only [findMatch?, hc, hcontent, accepts, Document.element?, ih hrest]
      rfl
    | comment value =>
      simp only [findMatch?, hc, hcontent, accepts, Document.element?, ih hrest]
      rfl

theorem exists_split_of_findIdx?_eq_some {α : Type} {p : α → Bool} {l : List α} {i : Nat}
    (h : l.findIdx? p = some i) : ∃ before a after, l = before ++ a :: after ∧
      before.length = i ∧ p a = true ∧ ∀ b ∈ before, p b = false := by
  obtain ⟨hi, hp, hbefore⟩ := List.findIdx?_eq_some_iff_getElem.1 h
  refine ⟨l.take i, l[i], l.drop (i + 1), ?_, by simp; omega, hp, ?_⟩
  · rw [← List.drop_eq_getElem_cons hi, List.take_append_drop]
  · intro b hb
    obtain ⟨j, hj, rfl⟩ := List.mem_iff_getElem.1 hb
    simp only [List.length_take] at hj
    have := hbefore j (by omega)
    simpa [List.getElem_take] using this

theorem insertIdx_append {α : Type} (l rest : List α) (a : α) :
    (l ++ rest).insertIdx l.length a = l ++ a :: rest := by
  induction l with
  | nil => rfl
  | cons b l ih => simp [ih]

theorem insertIdx_eq_take_append {α : Type} {l : List α} {i : Nat} (h : i ≤ l.length) (a : α) :
    l.insertIdx i a = l.take i ++ a :: l.drop i := by
  have := insertIdx_append (l.take i) (l.drop i) a
  rwa [List.take_append_drop, List.length_take_of_le h] at this

theorem moved_eq (visited before after : List NodeId) (id : NodeId) :
    ((visited ++ (before ++ id :: after)).eraseIdx (visited.length + before.length)).insertIdx
      visited.length id = visited ++ id :: (before ++ after) := by
  rw [List.eraseIdx_append_of_length_le (by omega), Nat.add_sub_cancel_left,
    List.eraseIdx_append_of_length_le (Nat.le_refl _), Nat.sub_self, List.eraseIdx_cons_zero,
    insertIdx_append]

theorem place_found (he : t.document.element? f.parent = some e) (hf : f.index ≤ e.children.length)
    (hl : ∀ id ∈ e.children, t.document.isLive id = true) {name key : String}
    {before after : List NodeId} {id : NodeId}
    (hsplit : e.children.drop f.index = before ++ id :: after)
    (hid : t.accepts name key id = true) (hbefore : ∀ b ∈ before, t.accepts name key b = false) :
    t.place f name key = .ok (id, t.setDocument
      (t.document.setChildren f.parent (e.children.take f.index ++ id :: (before ++ after)))) := by
  have hfind : t.findMatch? name key (e.children.drop f.index) = .ok (some before.length) := by
    rw [findMatch?_eq fun id hid => hl id (List.mem_of_mem_drop hid), hsplit]
    congr 1
    rw [List.findIdx?_append, List.findIdx?_eq_none_iff.2 hbefore, List.findIdx?_cons, if_pos hid]
    simp
  have hlen : (e.children.take f.index).length = f.index := by simp [hf]
  have hchildren : e.children = e.children.take f.index ++ (before ++ id :: after) := by
    rw [← hsplit, List.take_append_drop]
  have hget : e.children[f.index + before.length]? = some id := by
    rw [← List.getElem?_drop, hsplit]
    simp
  have hmoved := moved_eq (e.children.take f.index) before after id
  rw [hlen, ← hchildren] at hmoved
  simp only [place, Document.children_of_element? he, hfind, bind, Except.bind, hget, hmoved, pure,
    Except.pure]

theorem place_new (he : t.document.element? f.parent = some e) (hf : f.index ≤ e.children.length)
    (hl : ∀ id ∈ e.children, t.document.isLive id = true) {name key : String}
    (hnone : ∀ b ∈ e.children.drop f.index, t.accepts name key b = false) :
    t.place f name key = .ok (t.document.size, t.countCreated.setDocument
      (t.document.adopt f.parent f.index (.element (.new name key)))) := by
  have hfind : t.findMatch? name key (e.children.drop f.index) = .ok none := by
    rw [findMatch?_eq fun id hid => hl id (List.mem_of_mem_drop hid),
      List.findIdx?_eq_none_iff.2 hnone]
  simp only [place, Document.children_of_element? he, hfind, bind, Except.bind]
  exact insertChild_eq (t := t.countCreated) he hf _

theorem exists_match_or_forall (t : KeyedDom) (name key : String) (l : List NodeId) :
    (∃ before id after, l = before ++ id :: after ∧ t.accepts name key id = true ∧
      ∀ b ∈ before, t.accepts name key b = false) ∨ ∀ b ∈ l, t.accepts name key b = false := by
  cases h : l.findIdx? (t.accepts name key) with
  | none => exact .inr (List.findIdx?_eq_none_iff.1 h)
  | some i =>
    obtain ⟨before, id, after, hl, -, hid, hbefore⟩ := exists_split_of_findIdx?_eq_some h
    exact .inl ⟨before, id, after, hl, hid, hbefore⟩

theorem Sound.current (h : t.Sound) (hf : t.frames = f :: below) :
    ∃ e, t.document.element? f.parent = some e ∧ f.index ≤ e.children.length := by
  have hframed := h.framed
  rw [hf] at hframed
  obtain ⟨hsome, hindex⟩ := hframed.head
  obtain ⟨e, he⟩ := Option.isSome_iff_exists.1 hsome
  exact ⟨e, he, by rwa [Document.children_of_element? he] at hindex⟩

theorem Sound.isLive_children (h : t.Sound) (he : t.document.element? p = some e) :
    ∀ id ∈ e.children, t.document.isLive id = true := fun id hid =>
  h.tree.isLive_child (by rwa [Document.children_of_element? he])

theorem openElement_found (h : t.Sound) (hf : t.frames = f :: below)
    (he : t.document.element? f.parent = some e) {name key : String} {before after : List NodeId}
    {id : NodeId} (hsplit : e.children.drop f.index = before ++ id :: after)
    (hid : t.accepts name key id = true) (hbefore : ∀ b ∈ before, t.accepts name key b = false) :
    t.openElement name key = .ok (some id, { t with
      document := t.document.setChildren f.parent
        (e.children.take f.index ++ id :: (before ++ after))
      frames := ⟨id, 0⟩ :: { f with index := f.index + 1 } :: below }) := by
  obtain ⟨e', he', hindex⟩ := h.current hf
  obtain rfl : e' = e := Option.some.inj (he'.symm.trans he)
  simp only [openElement, hf, place_found he hindex (h.isLive_children he) hsplit hid hbefore, bind,
    Except.bind, pure, Except.pure, frames_setDocument, advance]
  rfl

theorem openElement_new (h : t.Sound) (hf : t.frames = f :: below)
    (he : t.document.element? f.parent = some e) {name key : String}
    (hnone : ∀ b ∈ e.children.drop f.index, t.accepts name key b = false) :
    t.openElement name key = .ok (some t.document.size, { t with
      document := t.document.adopt f.parent f.index (.element (.new name key))
      frames := ⟨t.document.size, 0⟩ :: { f with index := f.index + 1 } :: below
      created := t.created + 1 }) := by
  obtain ⟨e', he', hindex⟩ := h.current hf
  obtain rfl : e' = e := Option.some.inj (he'.symm.trans he)
  simp only [openElement, hf, place_new he hindex (h.isLive_children he) hnone, bind, Except.bind,
    pure, Except.pure, frames_setDocument, advance]
  simp only [countCreated, hf]
  rfl

theorem closeElement_eq (h : t.Sound) {g : Frame} (hf : t.frames = f :: g :: below) :
    t.closeElement = .ok (some f.parent,
      { t with document := pruned t.document f, frames := g :: below }) := by
  have hfits : f.Fits t.document := h.framed.fits f (by simp [hf])
  simp only [closeElement, hf, dropUnvisited_eq hfits, bind, Except.bind, pure, Except.pure]
  rfl

theorem writeText_found (hf : t.frames = f :: below)
    (he : t.document.element? f.parent = some e) {id : NodeId}
    (hid : e.children[f.index]? = some id) {old : String}
    (hc : t.document.content? id = some (.text old)) (value : String) :
    t.writeText value = .ok (some id, { t with
      document := t.document.setContent id (.text value)
      frames := { f with index := f.index + 1 } :: below }) := by
  obtain ⟨n, hn, hnc⟩ := Option.map_eq_some_iff.1 hc
  simp only [writeText, hf, Document.children_of_element? he, hid, liveNode_eq hn, hnc, bind,
    Except.bind, pure, Except.pure, advance, frames_setDocument]
  rfl

theorem writeText_new (h : t.Sound) (hf : t.frames = f :: below)
    (he : t.document.element? f.parent = some e)
    (hno : ∀ id old, e.children[f.index]? = some id → t.document.content? id ≠ some (.text old))
    (value : String) :
    t.writeText value = .ok (some t.document.size, { t with
      document := t.document.adopt f.parent f.index (.text value)
      frames := { f with index := f.index + 1 } :: below }) := by
  obtain ⟨e', he', hindex⟩ := h.current hf
  obtain rfl : e' = e := Option.some.inj (he'.symm.trans he)
  have hinsert := insertChild_eq he hindex (.text value)
  cases hid : e'.children[f.index]? with
  | none =>
    simp only [writeText, hf, Document.children_of_element? he, hid, hinsert, bind, Except.bind,
      pure, Except.pure, advance, frames_setDocument]
    rfl
  | some id =>
    have hmem : id ∈ e'.children := List.mem_of_getElem? hid
    obtain ⟨n, hn⟩ := Document.isLive_iff.1 (h.isLive_children he id hmem)
    have hnot : ∀ old, n.content ≠ .text old := fun old hnc =>
      hno id old hid (by simp [Document.content?, hn, hnc])
    cases hnc : n.content with
    | text old => exact absurd hnc (hnot old)
    | element e'' =>
      simp only [writeText, hf, Document.children_of_element? he, hid, liveNode_eq hn, hnc, hinsert,
        bind, Except.bind, pure, Except.pure, advance, frames_setDocument]
      rfl
    | comment old =>
      simp only [writeText, hf, Document.children_of_element? he, hid, liveNode_eq hn, hnc, hinsert,
        bind, Except.bind, pure, Except.pure, advance, frames_setDocument]
      rfl

theorem changeCurrent_eq (h : t.Sound) (hf : t.frames = f :: below) (change : Element → Element) :
    t.changeCurrent change = .ok (t.setDocument (t.document.updateElement f.parent change)) := by
  obtain ⟨e, he, -⟩ := h.current hf
  obtain ⟨n, hn⟩ := Document.isLive_iff.1 (Document.isLive_of_element? he)
  simp only [changeCurrent, hf, liveNode_eq hn, bind, Except.bind, pure, Except.pure]

def begun (t : KeyedDom) (root : NodeId) (rule : Key.MatchRule) : KeyedDom :=
  { t with frames := [⟨root, 0⟩], mode := .inner, rule := rule }

theorem beginPatch_inner (t : KeyedDom) (root : NodeId) (rule : Key.MatchRule) :
    t.beginPatch root .inner rule = .ok (t.begun root rule) := rfl

theorem endPatch_eq (h : t.Sound) (hf : t.frames = [f]) (hmode : t.mode = .inner) :
    t.endPatch = .ok { t.setDocument (pruned t.document f) with frames := [] } := by
  have hfits : f.Fits t.document := h.framed.fits f (by simp [hf])
  simp only [endPatch, hf, hmode, dropUnvisited_eq hfits, bind, Except.bind, pure, Except.pure]

theorem setInnerMarkup_eq (he : t.document.element? p = some e) (markup : String) :
    t.setInnerMarkup p markup = .ok { t with
      document := (pruned t.document ⟨p, 0⟩).updateElement p fun e => { e with raw := some markup }
      markupWrites := t.markupWrites + 1 } := by
  simp only [setInnerMarkup, listedChildren_eq he, bind, Except.bind, pure, Except.pure, pruned,
    Document.children_of_element? he, List.take_zero, List.drop_zero]

theorem appendComment_eq (he : t.document.element? p = some e) (value : String) :
    t.appendComment p value = .ok (some t.document.size, t.countCreated.setDocument
      (t.document.adopt p e.children.length (.comment value))) := by
  have hinsert := insertChild_eq (t := t.countCreated) he (Nat.le_refl _) (.comment value)
  simp only [appendComment, he, hinsert, bind, Except.bind, pure, Except.pure]
  rfl

end KeyedRender.KeyedDom

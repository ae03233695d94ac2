import KeyedRender.Proofs.Script.Plan
import KeyedRender.Proofs.Target.Moves

/-!
# What a plan leaves behind

Following a plan never fails on a sound target. The children that it visits are settled: they are
the texts and elements of the plan, in order, every element accepts the name and the key it was
opened with, carries the attributes and the markup the plan gave it, and has settled children and
no others. What comes later in a pass leaves visited children alone.
-/
namespace KeyedRender

theorem Key.MatchRule.accepts_self (rule : Key.MatchRule) (name key : String) :
    rule.accepts name name key key = true := by
  cases rule <;>
    simp [Key.MatchRule.accepts, Key.elementMatches, Key.isMatching, Key.isMatchingText]

namespace Document

/-- Nodes on which everything is as a plan would leave it. -/
inductive Settled (d : Document) (rule : Key.MatchRule) : Plan → List NodeId → Prop
  | done : Settled d rule .done []
  | assign {assignment : Assignment} {next : Plan} {ids : List NodeId} :
      Settled d rule next ids → Settled d rule (.assign assignment next) ids
  | text {value : String} {next : Plan} {id : NodeId} {ids : List NodeId} :
      d.content? id = some (.text value) → Settled d rule next ids →
      Settled d rule (.text value next) (id :: ids)
  | blob {key markup : String} {next : Plan} {id : NodeId} {ids : List NodeId} {e : Element} :
      d.element? id = some e → rule.accepts KeyedDom.blobName e.name key e.key = true →
      e.record.blob = some markup → Settled d rule next ids →
      Settled d rule (.blob key markup next) (id :: ids)
  | element {name key : String} {inner next : Plan} {id : NodeId} {ids : List NodeId}
      {e : Element} : d.element? id = some e → rule.accepts name e.name key e.key = true →
      e.assignAll inner.assigned = e → Settled d rule inner e.children →
      Settled d rule next ids → Settled d rule (.element name key inner next) (id :: ids)

def KeepsBelow (d : Document) (tops : List NodeId) (d' : Document) : Prop :=
  ∀ top ∈ tops, ∀ id, d.Below top id → d'.node? id = d.node? id

variable {d d' d'' : Document} {rule : Key.MatchRule} {p id : NodeId}
  {ids tops visited left : List NodeId}

namespace KeepsBelow

theorem refl (d : Document) (tops : List NodeId) : d.KeepsBelow tops d := fun _ _ _ _ => rfl

theorem trans (h : d.KeepsBelow tops d') (h' : d'.KeepsBelow tops d'') :
    d.KeepsBelow tops d'' := by
  intro top htop id hid
  have hid' : d'.Below top id := hid.congr fun n hn => children_eq_of_node? (h top htop n hn)
  rw [h' top htop id hid', h top htop id hid]

theorem mono (h : d.KeepsBelow tops d') (hsub : visited ⊆ tops) : d.KeepsBelow visited d' :=
  fun top htop => h top (hsub htop)

theorem children (h : d.KeepsBelow tops d') (hid : id ∈ tops) :
    d.KeepsBelow (d.children id) d' := fun _ hc n hn => h id hid n (.head hc hn)

theorem element? (h : d.KeepsBelow tops d') (hid : id ∈ tops) :
    d'.element? id = d.element? id := element?_eq_of_node? (h id hid id .self)

theorem of_sibling (hd : d.IsTree) (hchildren : d.children p = visited ++ id :: left)
    (hc : d.ChangesBelow id d') : d.KeepsBelow visited d' := by
  intro c hcmem n hn
  have hchild : c ∈ d.children p := by simp [hchildren, hcmem]
  obtain ⟨m, hm⟩ := isLive_iff.1 (Drawn.isLive_of_below hd hn (hd.isLive_child hchild))
  refine hc n (lt_size_of_node? hm) fun hb => ?_
  have hne : c ≠ id := by
    have hnodup := TreeBut.nodup hd p
    rw [hchildren] at hnodup
    exact (List.nodup_append.1 hnodup).2.2 c hcmem id (by simp)
  exact hd.not_below_siblings hchild (by simp [hchildren]) hne hn hb

end KeepsBelow

theorem Settled.congr {plan : Plan} (h : d.Settled rule plan ids) (hk : d.KeepsBelow ids d') :
    d'.Settled rule plan ids := by
  induction h with
  | done => exact .done
  | assign _ ih => exact .assign (ih hk)
  | @text value next id ids hc _ ih =>
    refine .text ?_ (ih (hk.mono (List.subset_cons_self id ids)))
    rwa [content?, hk id (by simp) id .self]
  | @blob key markup next id ids e he haccepts hblob _ ih =>
    refine .blob ?_ haccepts hblob (ih (hk.mono (List.subset_cons_self id ids)))
    rwa [hk.element? (by simp)]
  | @element name key inner next id ids e he haccepts hassigned _ _ ihinner ih =>
    refine .element ?_ haccepts hassigned (ihinner ?_) (ih (hk.mono (List.subset_cons_self id ids)))
    · rwa [hk.element? (by simp)]
    · rw [← children_of_element? he]
      exact hk.children (by simp)

end Document

namespace KeyedDom

open Document (KeepsBelow Settled)

/-- A target at an element some of whose children were visited. -/
structure Stands (t : KeyedDom) (p : NodeId) (visited : List NodeId) (below : List Frame) :
    Prop where
  sound : t.Sound
  frames : t.frames = ⟨p, visited.length⟩ :: below
  visited : visited <+: t.document.children p

def SamePass (t t' : KeyedDom) : Prop := t'.mode = t.mode ∧ t'.rule = t.rule

theorem SamePass.trans {t t' t'' : KeyedDom} (h : t.SamePass t') (h' : t'.SamePass t'') :
    t.SamePass t'' := ⟨h'.1.trans h.1, h'.2.trans h.2⟩

structure Advances (t : KeyedDom) (p : NodeId) (visited ids : List NodeId) (below : List Frame)
    (assigned : List Assignment) (t' : KeyedDom) : Prop where
  stands : t'.Stands p (visited ++ ids) below
  pass : t.SamePass t'
  element : ∀ e, t.document.element? p = some e →
    ∃ l, t'.document.element? p = some { e.assignAll assigned with children := l }
  edits : t.document.EditsBelow p t'.document
  keeps : t.document.KeepsBelow visited t'.document

variable {t t' t'' t₁ t₂ t₃ : KeyedDom} {p id : NodeId} {visited ids more : List NodeId}
  {below : List Frame} {f : Frame} {assigned others : List Assignment}

namespace Stands

theorem exists_element (h : t.Stands p visited below) :
    ∃ e left, t.document.element? p = some e ∧ e.children = visited ++ left := by
  obtain ⟨e, he, -⟩ := h.sound.current h.frames
  obtain ⟨left, hleft⟩ := h.visited
  exact ⟨e, left, he, by rw [hleft, Document.children_of_element? he]⟩

end Stands

namespace Advances

theorem refl (h : t.Stands p visited below) : t.Advances p visited [] below [] t :=
  ⟨by rwa [List.append_nil], ⟨rfl, rfl⟩, fun e he => ⟨e.children, he⟩, .refl _ _, .refl _ _⟩

theorem trans (h : t.Advances p visited ids below assigned t')
    (h' : t'.Advances p (visited ++ ids) more below others t'') :
    t.Advances p visited (ids ++ more) below (assigned ++ others) t'' := by
  refine ⟨?_, h.pass.trans h'.pass, fun e he => ?_, ?_, ?_⟩
  · rw [← List.append_assoc]
    exact h'.stands
  · obtain ⟨l, hl⟩ := h.element e he
    obtain ⟨l', hl'⟩ := h'.element _ hl
    refine ⟨l', ?_⟩
    rw [hl', Element.assignAll_append]
    rfl
  · exact h.edits.trans (Document.TreeBut.pointsLater h.stands.sound.tree) .self h'.edits
  · exact h.keeps.trans (h'.keeps.mono (List.subset_append_left _ _))

theorem within (h : t.Advances p visited [id] below [] t₁) (hsound : t'.Sound)
    (hframes : t'.frames = t₁.frames) (hpass : t₁.SamePass t')
    (hedits : t₁.document.EditsBelow id t'.document) :
    t.Advances p visited [id] below [] t' := by
  have htree := h.stands.sound.tree
  obtain ⟨e₁, left, he₁, hleft⟩ := h.stands.exists_element
  have hchildren : t₁.document.children p = visited ++ id :: left := by
    rw [Document.children_of_element? he₁, hleft]
    simp
  have hchild : id ∈ t₁.document.children p := by simp [hchildren]
  have hp : t'.document.element? p = t₁.document.element? p :=
    hedits.element?_outside (Document.lt_size_of_element? he₁)
      (not_below_of_lt htree (htree.lt hchild))
  refine ⟨⟨hsound, hframes.trans h.stands.frames, ?_⟩, h.pass.trans hpass, fun e he => ?_, ?_, ?_⟩
  · rw [Document.children, hp]
    exact h.stands.visited
  · rw [hp]
    exact h.element e he
  · exact h.edits.trans (Document.TreeBut.pointsLater htree) (.child .self hchild) hedits
  · exact h.keeps.trans (.of_sibling htree hchildren hedits.changes)

end Advances

def popped (t : KeyedDom) : KeyedDom := { t with frames := t.frames.tail }

theorem Sound.popped (h : t.Sound) (hf : t.frames = f :: below) : t.popped.Sound := by
  have hframed := h.framed
  rw [hf] at hframed
  refine ⟨h.tree, ?_⟩
  rw [KeyedDom.popped, hf]
  exact hframed.tail

theorem accepts_iff {name key : String} :
    t.accepts name key id = true ↔
      ∃ e, t.document.element? id = some e ∧ t.rule.accepts name e.name key e.key = true := by
  unfold accepts
  split
  · next e he => simp [he]
  · next he => simp [he]

structure OpensAt (t : KeyedDom) (p : NodeId) (visited : List NodeId) (below : List Frame)
    (name key : String) (id : NodeId) (e : Element) (t' : KeyedDom) : Prop where
  opens : t.openElement name key = .ok (some id, t')
  stands : t'.Stands id [] (⟨p, (visited ++ [id]).length⟩ :: below)
  advances : t.Advances p visited [id] below [] t'.popped
  element : t'.document.element? id = some e
  accepted : t.rule.accepts name e.name key e.key = true

namespace Stands

variable {e : Element} {left before after : List NodeId} {name key : String}

theorem advances (h : t.Stands p visited below) (left : List NodeId)
    (he : t.document.element? p = some e)
    (hr : t.document.Revises ⟨p, visited.length⟩ t'.document) (hsound : t'.Sound)
    (hframes : t'.frames = ⟨p, (visited ++ ids).length⟩ :: below) (hpass : t.SamePass t')
    (he' : t'.document.element? p = some { e with children := visited ++ ids ++ left }) :
    t.Advances p visited ids below [] t' := by
  refine ⟨⟨hsound, hframes, left, (Document.children_of_element? he').symm⟩, hpass,
    fun e₀ he₀ => ?_, hr.edits, fun c hc => hr.visited c ?_⟩
  · obtain rfl := Option.some.inj (he.symm.trans he₀)
    exact ⟨_, he'⟩
  · rwa [← List.prefix_iff_eq_take.1 h.visited]

theorem opens_found (h : t.Stands p visited below) (he : t.document.element? p = some e)
    (hchildren : e.children = visited ++ (before ++ id :: after))
    (hid : t.accepts name key id = true) (hbefore : ∀ c ∈ before, t.accepts name key c = false) :
    ∃ e' t', t.OpensAt p visited below name key id e' t' := by
  have htake : e.children.take visited.length = visited := by simp [hchildren]
  have hsplit : e.children.drop visited.length = before ++ id :: after := by simp [hchildren]
  have hopen := openElement_found h.sound h.frames he hsplit hid hbefore
  obtain ⟨r, hr, hsound⟩ := h.sound.openElement name key
  rw [hopen] at hr
  cases hr
  obtain ⟨e', he', haccepts⟩ := accepts_iff.1 hid
  have hmem : id ∈ t.document.children p := by
    rw [Document.children_of_element? he, hchildren]
    simp
  have hrevises : t.document.Revises ⟨p, visited.length⟩ (t.document.setChildren p
      (e.children.take visited.length ++ id :: (before ++ after))) := by
    refine .setChildren h.sound.tree he (fun c hc => ?_) (by simp [htake]) (by simp [htake])
    rw [htake] at hc
    rw [hchildren]
    simp only [List.mem_append, List.mem_cons] at hc ⊢
    tauto
  refine ⟨e', _, hopen, ⟨hsound, by simp, List.nil_prefix⟩,
    h.advances (before ++ after) he hrevises (hsound.popped rfl) (by simp [popped]) ⟨rfl, rfl⟩ ?_,
    ?_, haccepts⟩
  · rw [popped, Document.element?_setChildren he, htake]
    simp
  · rw [Document.setChildren, Document.element?_updateElement,
      if_neg (Nat.ne_of_gt (h.sound.tree.lt hmem)), he']

theorem opens_new (h : t.Stands p visited below) (he : t.document.element? p = some e)
    (hchildren : e.children = visited ++ left)
    (hnone : ∀ c ∈ left, t.accepts name key c = false) :
    ∃ id e' t', t.OpensAt p visited below name key id e' t' := by
  have hdrop : e.children.drop visited.length = left := by simp [hchildren]
  have hindex : visited.length ≤ e.children.length := by simp [hchildren]
  have hopen := openElement_new h.sound h.frames he (hdrop ▸ hnone)
  obtain ⟨r, hr, hsound⟩ := h.sound.openElement name key
  rw [hopen] at hr
  cases hr
  have hempty := Document.children_of_new name key
  refine ⟨_, .new name key, _, hopen, ⟨hsound, by simp, List.nil_prefix⟩,
    h.advances left he (.adopt h.sound.tree he hempty hindex) (hsound.popped rfl)
      (by simp [popped]) ⟨rfl, rfl⟩ ?_, ?_, ?_⟩
  · rw [popped, Document.element?_adopt he, hchildren, insertIdx_append]
    simp
  · simp [Document.element?, Document.content?, Document.node?_adopt_size he]
  · exact t.rule.accepts_self name key

theorem exists_opens (h : t.Stands p visited below) (name key : String) :
    ∃ id e t', t.OpensAt p visited below name key id e t' := by
  obtain ⟨e, left, he, hchildren⟩ := h.exists_element
  rcases t.exists_match_or_forall name key left with ⟨before, id, after, rfl, hid, hbefore⟩ | hnone
  · exact ⟨id, h.opens_found he hchildren hid hbefore⟩
  · exact h.opens_new he hchildren hnone

theorem prunes (h : t.Stands p ids below) :
    t.document.EditsBelow p (pruned t.document ⟨p, ids.length⟩) ∧
      t.document.KeepsBelow ids (pruned t.document ⟨p, ids.length⟩) ∧
      ∀ e, t.document.element? p = some e →
        (pruned t.document ⟨p, ids.length⟩).element? p = some { e with children := ids } := by
  obtain ⟨e, left, he, hchildren⟩ := h.exists_element
  have hrevises : t.document.Revises ⟨p, ids.length⟩ (pruned t.document ⟨p, ids.length⟩) :=
    .pruned h.sound.tree he (by simp [hchildren])
  refine ⟨hrevises.edits, fun c hc => hrevises.visited c ?_, fun e₀ he₀ => ?_⟩
  · rwa [← List.prefix_iff_eq_take.1 h.visited]
  · obtain rfl := Option.some.inj (he.symm.trans he₀)
    have hpruned := element?_pruned h.sound.tree (f := ⟨p, ids.length⟩) he
    rwa [hchildren, List.take_left] at hpruned

theorem closes (h : t.Stands p ids (f :: below)) : ∃ closed t', t.closeElement = .ok (closed, t') ∧
    t'.Sound ∧ t'.frames = f :: below ∧ t.SamePass t' ∧ t.document.EditsBelow p t'.document ∧
    t.document.KeepsBelow ids t'.document ∧
    ∀ e, t.document.element? p = some e →
      t'.document.element? p = some { e with children := ids } := by
  have hclose := closeElement_eq h.sound h.frames
  obtain ⟨r, hr, hsound⟩ := h.sound.closeElement
  rw [hclose] at hr
  cases hr
  exact ⟨_, _, hclose, hsound, rfl, ⟨rfl, rfl⟩, h.prunes⟩

theorem writes_found (h : t.Stands p visited below) (he : t.document.element? p = some e)
    (hchildren : e.children = visited ++ left) {old : String}
    (hid : e.children[visited.length]? = some id) (hc : t.document.content? id = some (.text old))
    (value : String) :
    ∃ node t', t.writeText value = .ok (node, t') ∧ t.Advances p visited [id] below [] t' ∧
      t'.document.content? id = some (.text value) := by
  have hwrite := writeText_found h.frames he hid hc value
  obtain ⟨r, hr, hsound⟩ := h.sound.writeText value
  rw [hwrite] at hr
  cases hr
  obtain ⟨rest, rfl⟩ : ∃ rest, left = id :: rest := by
    rw [hchildren, List.getElem?_append_right (Nat.le_refl _), Nat.sub_self] at hid
    exact ⟨left.tail, List.eq_cons_of_mem_head? (by rwa [← List.head?_eq_getElem?] at hid)⟩
  have hne : p ≠ id := by
    rintro rfl
    rw [Document.element?_eq_some_iff.1 he] at hc
    cases hc
  refine ⟨_, _, hwrite, h.advances rest he (.setText h.sound.tree he hid hc value) hsound
    (by simp) ⟨rfl, rfl⟩ ?_, ?_⟩
  · rw [Document.element?_setContent_ne hne, he, List.append_assoc, List.singleton_append,
      ← hchildren]
  · obtain ⟨n, hn, -⟩ := Option.map_eq_some_iff.1 hc
    simp [Document.content?, Document.node?_setContent, hn]

theorem writes_new (h : t.Stands p visited below) (he : t.document.element? p = some e)
    (hchildren : e.children = visited ++ left)
    (hnone : ∀ id old, e.children[visited.length]? = some id →
      t.document.content? id ≠ some (.text old)) (value : String) :
    ∃ node t', t.writeText value = .ok (node, t') ∧
      t.Advances p visited [t.document.size] below [] t' ∧
      t'.document.content? t.document.size = some (.text value) := by
  have hwrite := writeText_new h.sound h.frames he hnone value
  obtain ⟨r, hr, hsound⟩ := h.sound.writeText value
  rw [hwrite] at hr
  cases hr
  have hempty : ∀ e', Content.text value = .element e' → e'.children = [] := by simp
  refine ⟨_, _, hwrite, h.advances left he
    (.adopt h.sound.tree he hempty (by simp [hchildren])) hsound (by simp) ⟨rfl, rfl⟩ ?_, ?_⟩
  · rw [Document.element?_adopt he, hchildren, insertIdx_append]
    simp
  · simp [Document.content?, Document.node?_adopt_size he]

theorem exists_writes (h : t.Stands p visited below) (value : String) :
    ∃ id node t', t.writeText value = .ok (node, t') ∧ t.Advances p visited [id] below [] t' ∧
      t'.document.content? id = some (.text value) := by
  obtain ⟨e, left, he, hchildren⟩ := h.exists_element
  by_cases hold : ∃ id old, e.children[visited.length]? = some id ∧
      t.document.content? id = some (.text old)
  · obtain ⟨id, old, hid, hc⟩ := hold
    exact ⟨id, h.writes_found he hchildren hid hc value⟩
  · push Not at hold
    exact ⟨_, h.writes_new he hchildren (fun id old => hold id old) value⟩

theorem assigns (h : t.Stands p visited below) (assignment : Assignment) :
    ∃ t', t.changeCurrent (Element.assign assignment) = .ok t' ∧
      t.Advances p visited [] below [assignment] t' := by
  obtain ⟨e, left, he, hchildren⟩ := h.exists_element
  have hchange := changeCurrent_eq h.sound h.frames (Element.assign assignment)
  refine ⟨_, hchange, ⟨?_, ?_, ?_⟩, ⟨rfl, rfl⟩, fun e₀ he₀ => ?_, ?_, fun c hc id hid => ?_⟩
  · exact h.sound.updateElement p (Element.children_assign assignment)
  · rw [List.append_nil]
    exact h.frames
  · rw [List.append_nil, document_setDocument,
      Document.children_updateElement _ _ _ (Element.children_assign assignment)]
    exact h.visited
  · refine ⟨e₀.children, ?_⟩
    rw [document_setDocument, Document.element?_updateElement, if_pos rfl, he₀,
      Element.assignAll_cons]
    cases assignment <;> rfl
  · exact .updateElement _ _ (Element.children_assign assignment)
      (Element.sameHead_assign assignment)
  · exact Document.node?_updateElement_ne _
      (Drawn.ne_of_below_child h.sound.tree (h.visited.subset hc) hid)

theorem writes_blob (h : t.Stands p [] below) (markup : String) :
    ∃ t', t.writeBlob p markup = .ok t' ∧ t'.Sound ∧ t'.frames = t.frames ∧ t.SamePass t' ∧
      t.document.EditsBelow p t'.document ∧
      ∃ e, t'.document.element? p = some e ∧ e.record.blob = some markup := by
  obtain ⟨e, left, he, -⟩ := h.exists_element
  unfold writeBlob
  split
  · next hwritten =>
    rw [Document.record?, he] at hwritten
    exact ⟨t, rfl, h.sound, rfl, ⟨rfl, rfl⟩, .refl _ _, e, he, hwritten⟩
  · obtain ⟨t₁, ht₁, hmoves, hframes⟩ := moves_setInnerMarkup h.sound h.frames markup
    have hrule : t₁.rule = t.rule := by
      rw [setInnerMarkup_eq he markup] at ht₁
      cases ht₁
      rfl
    obtain ⟨e₁, he₁, -⟩ := hmoves.edits.head e he
    have hrecord : t₁.document.EditsBelow p
        (t₁.document.updateRecord p fun r => { r with blob := some markup }) :=
      .updateElement _ _ (fun _ => rfl) fun _ => ⟨rfl, rfl, rfl⟩
    refine ⟨t₁.setDocument (t₁.document.updateRecord p fun r => { r with blob := some markup }),
      by rw [ht₁]; rfl, hmoves.sound.updateElement p fun _ => rfl, hframes, ⟨hmoves.mode, hrule⟩,
      hmoves.edits.trans (Document.TreeBut.pointsLater hmoves.sound.tree) .self hrecord,
      { e₁ with record := { e₁.record with blob := some markup } }, ?_, rfl⟩
    rw [document_setDocument, Document.updateRecord, Document.element?_updateElement, if_pos rfl,
      he₁]
    rfl

end Stands

theorem Sound.skips (h : t.Sound) {index : Nat} (hf : t.frames = ⟨p, index⟩ :: below) :
    t.skipRest.Stands p (t.document.children p) below := by
  refine ⟨h.skipTo fun _ _ => Nat.le_refl _, by simp [skipRest, KeyedDom.skipTo, hf], ?_⟩
  simp [skipRest]

section Settles

theorem OpensAt.within {name key : String} {e : Element}
    (h : t.OpensAt p visited below name key id e t₁) (hsound : t'.Sound)
    (hframes : t'.frames = ⟨p, (visited ++ [id]).length⟩ :: below) (hpass : t₁.SamePass t')
    (hedits : t₁.document.EditsBelow id t'.document) : t.Advances p visited [id] below [] t' := by
  refine h.advances.within hsound ?_ hpass hedits
  rw [hframes, popped, h.stands.frames]
  rfl

/-- Following a plan succeeds, and the children that were visited are settled. -/
theorem Stands.settles (plan : Plan) (h : t.Stands p visited below) :
    ∃ ids t', plan.Runs t t' ∧ t.Advances p visited ids below plan.assigned t' ∧
      t'.document.Settled t.rule plan ids := by
  -- The later steps keep what is below the nodes visited so far, which stay settled by that.
  induction plan generalizing t p visited below with
  | done => exact ⟨[], t, .done, .refl h, .done⟩
  | assign assignment next ih =>
    obtain ⟨t₁, hassign, hadvances⟩ := h.assigns assignment
    obtain ⟨ids, t', hruns, hrest, hsettled⟩ := ih hadvances.stands
    rw [hadvances.pass.2] at hsettled
    exact ⟨ids, t', .assign hassign hruns, hadvances.trans hrest, .assign hsettled⟩
  | text value next ih =>
    obtain ⟨id, node, t₁, hwrite, hadvances, htext⟩ := h.exists_writes value
    obtain ⟨ids, t', hruns, hrest, hsettled⟩ := ih hadvances.stands
    rw [hadvances.pass.2] at hsettled
    refine ⟨id :: ids, t', .text hwrite hruns, hadvances.trans hrest, .text ?_ hsettled⟩
    rwa [Document.content?, hrest.keeps id (by simp) id .self]
  | blob key markup next ih =>
    obtain ⟨id, e, t₁, hopens⟩ := h.exists_opens blobName key
    obtain ⟨t₂, hwrite, hsound, hframes, hpass, hedits, e₂, he₂, hblob⟩ :=
      hopens.stands.writes_blob markup
    obtain ⟨closed, t₃, hclose, hsound₃, hframes₃, hpass₃, hedits₃, -, helement⟩ :=
      (hsound.skips (hframes.trans hopens.stands.frames)).closes
    rw [skipRest, document_skipTo] at hedits₃ helement
    have hskip : t₂.SamePass t₂.skipRest := by
      unfold skipRest skipTo
      split <;> exact ⟨rfl, rfl⟩
    have hwithin := hopens.within hsound₃ hframes₃ ((hpass.trans hskip).trans hpass₃)
      (hedits.trans (Document.TreeBut.pointsLater hsound.tree) .self hedits₃)
    obtain ⟨ids, t', hruns, hrest, hsettled⟩ := ih hwithin.stands
    obtain ⟨e', he', hhead⟩ := hedits.head e hopens.element
    obtain rfl := Option.some.inj (he₂.symm.trans he')
    rw [hwithin.pass.2] at hsettled
    refine ⟨id :: ids, t', .blob hopens.opens hwrite hclose hruns, hwithin.trans hrest,
      .blob ((hrest.keeps.element? (by simp)).trans (helement _ he₂)) ?_ hblob hsettled⟩
    show t.rule.accepts blobName e₂.name key e₂.key = true
    rw [hhead.name, hhead.key]
    exact hopens.accepted
  | element name key inner next ihinner ih =>
    obtain ⟨id, e, t₁, hopens⟩ := h.exists_opens name key
    obtain ⟨ids, t₂, hinner, hadvances, hsettled⟩ := ihinner hopens.stands
    obtain ⟨closed, t₃, hclose, hsound, hframes, hpass, hedits, hkeeps, helement⟩ :=
      hadvances.stands.closes
    have hlater := Document.TreeBut.pointsLater hadvances.stands.sound.tree
    have hwithin := hopens.within hsound hframes (hadvances.pass.trans hpass)
      (hadvances.edits.trans hlater .self hedits)
    obtain ⟨ids', t', hruns, hrest, hsettled'⟩ := ih hwithin.stands
    obtain ⟨l, hl⟩ := hadvances.element e hopens.element
    have he : t₃.document.element? id = some { e.assignAll inner.assigned with children := ids } :=
      (helement _ hl).trans rfl
    have hrule : t₁.rule = t.rule := hopens.advances.pass.2
    rw [hrule] at hsettled
    rw [hwithin.pass.2] at hsettled'
    refine ⟨id :: ids', t', .element hopens.opens hinner hclose hruns, hwithin.trans hrest,
      .element ((hrest.keeps.element? (by simp)).trans he) hopens.accepted
        (Element.assignAll_assignAll inner.assigned e ids) ?_ hsettled'⟩
    have hchildren := hrest.keeps.children (show id ∈ visited ++ [id] by simp)
    rw [Document.children_of_element? he] at hchildren
    exact (hsettled.congr hkeeps).congr hchildren

end Settles

section Passes

variable {root : NodeId} {plan : Plan} {rule : Key.MatchRule} {e : Element}

theorem stands_begun (h : t.document.IsTree) (hroot : (t.document.element? root).isSome)
    (rule : Key.MatchRule) : (t.begun root rule).Stands root [] [] :=
  ⟨sound_begun h hroot rule, rfl, List.nil_prefix⟩

theorem Advances.ends (h : (t.begun root rule).Advances root [] ids [] assigned t₁)
    (he : t.document.element? root = some e) :
    ∃ t', t₁.endPatch = .ok t' ∧ t'.rule = rule ∧ t'.frames = [] ∧ t'.mode = .inner ∧
      t'.document.IsTree ∧
      t'.document.element? root = some { e.assignAll assigned with children := ids } ∧
      t₁.document.KeepsBelow ids t'.document := by
  obtain ⟨hmode, hrule⟩ := h.pass
  have hstands : t₁.Stands root ids [] := h.stands
  obtain ⟨l, hl⟩ := h.element e he
  obtain ⟨-, hkeeps, hpruned⟩ := hstands.prunes
  exact ⟨_, endPatch_eq hstands.sound hstands.frames hmode, hrule, rfl, hmode,
    isTree_pruned hstands.sound.tree hl, (hpruned _ hl).trans rfl, hkeeps⟩

structure SettledAt (t : KeyedDom) (root : NodeId) (plan : Plan) : Prop where
  tree : t.document.IsTree
  frames : t.frames = []
  mode : t.mode = .inner
  element : ∃ e, t.document.element? root = some e ∧ e.assignAll plan.assigned = e ∧
    t.document.Settled t.rule plan e.children

theorem settles_pass (h : t.document.IsTree) (hroot : (t.document.element? root).isSome)
    (rule : Key.MatchRule) (plan : Plan) :
    ∃ t₁ t', plan.Runs (t.begun root rule) t₁ ∧ t₁.endPatch = .ok t' ∧ t'.rule = rule ∧
      t'.SettledAt root plan := by
  obtain ⟨ids, t₁, hruns, hadvances, hsettled⟩ := (stands_begun h hroot rule).settles plan
  obtain ⟨e, he⟩ := Option.isSome_iff_exists.1 hroot
  obtain ⟨t', hend, hrule, hframes, hmode, htree, he', hkeeps⟩ := hadvances.ends he
  exact ⟨t₁, t', hruns, hend, hrule, htree, hframes, hmode, _, he',
    Element.assignAll_assignAll plan.assigned e ids, hrule ▸ hsettled.congr hkeeps⟩

end Passes

end KeyedDom

end KeyedRender

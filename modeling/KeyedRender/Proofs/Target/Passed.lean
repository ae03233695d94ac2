import KeyedRender.Proofs.Document.Attaching
import KeyedRender.Proofs.Target.Moves

/-!
# Nodes that a pass has gone by

The children of open elements that were not visited are erased when these are closed, with all that
is below them. A node that is below none of them stays, whatever calls follow: what they bring to
the unvisited children is new, or was below one of these already. A comment is such a node once it
was added with nothing at the pointer, and skipped.
-/
namespace KeyedRender

open Document (Below Gains)

namespace KeyedDom

variable {t t' : KeyedDom} {f g : Frame} {below : List Frame} {c : NodeId} {value : String}

def Unvisited (t : KeyedDom) (child : NodeId) : Prop :=
  ∃ f ∈ t.frames, child ∈ (t.document.children f.parent).drop f.index

structure Clear (t : KeyedDom) (c : NodeId) : Prop where
  old : c < t.document.size
  apart : ∀ child, t.Unvisited child → ¬ t.document.Below child c

theorem Clear.change (h : t.Clear c) (htree : t'.document.IsTree)
    (hgains : t.document.Gains t'.document)
    (hrest : ∀ child, t'.Unvisited child →
      t.document.size ≤ child ∨ ∃ top, t.Unvisited top ∧ t'.document.Below top child) :
    t'.Clear c := by
  refine ⟨Nat.lt_of_lt_of_le h.old hgains.size, fun child hchild hb => ?_⟩
  rcases hrest child hchild with hnew | ⟨top, htop, hbelow⟩
  · have hle := hb.le (Document.TreeBut.pointsLater htree)
    exact absurd (Nat.lt_of_lt_of_le h.old hnew) (Nat.not_lt.2 hle)
  · rcases hgains.below_or_new (hbelow.trans hb) with hold | hnew
    · exact h.apart top htop hold
    · exact absurd h.old (Nat.not_lt.2 hnew)

/-- A node that is there, and below no child that was not visited. -/
structure Passed (c : NodeId) (t : KeyedDom) : Prop where
  sound : t.Sound
  live : t.document.isLive c = true
  apart : ∀ child, t.Unvisited child → ¬ t.document.Below child c

theorem Passed.clear (h : t.Passed c) : t.Clear c := by
  obtain ⟨n, hn⟩ := Document.isLive_iff.1 h.live
  exact ⟨Document.lt_size_of_node? hn, h.apart⟩

theorem Passed.change (h : t.Passed c) (hs : t'.Sound) (hgains : t.document.Gains t'.document)
    (hlive : t'.document.isLive c = true)
    (hrest : ∀ child, t'.Unvisited child →
      t.document.size ≤ child ∨ ∃ top, t.Unvisited top ∧ t'.document.Below top child) :
    t'.Passed c := ⟨hs, hlive, (h.clear.change hs.tree hgains hrest).apart⟩

theorem children_outer (hd : t.document.IsTree) (h : Framed t.document (f :: below))
    (hc : t.document.ChangesBelow f.parent t'.document) :
    ∀ g ∈ below, t'.document.children g.parent = t.document.children g.parent := by
  intro g hg
  obtain ⟨e, he⟩ := Option.isSome_iff_exists.1 (h.tail.fits g hg).1
  exact Document.children_eq_of_node?
    (hc _ (Document.lt_size_of_element? he) (not_below_of_lt hd (h.parent_lt hd g hg)))

theorem Passed.reshaped (h : t.Passed c) (hs : t'.Sound)
    (hshape : t.document.SameShape t'.document)
    (hfewer : ∀ child, t'.Unvisited child → t.Unvisited child) : t'.Passed c where
  sound := hs
  live := (hshape.live c).trans h.live
  apart child hchild hb := h.apart child (hfewer child hchild)
    (hb.mono fun id => by rw [hshape.children]; exact List.Subset.refl _)

section Innermost

variable (h : t.Passed c) (hf : t.frames = f :: below) (hs : t'.Sound)
  (hedits : t.document.EditsBelow f.parent t'.document) (hlive : t'.document.isLive c = true)
include h hf hs hedits hlive

theorem Passed.inner {frames : List Frame} (hframes : t'.frames = frames ++ below)
    (hrest : ∀ g ∈ frames, ∀ child ∈ (t'.document.children g.parent).drop g.index,
      t.document.size ≤ child ∨
        ∃ top ∈ (t.document.children f.parent).drop f.index, t'.document.Below top child) :
    t'.Passed c := by
  refine h.change hs hedits.toGains hlive fun child ⟨g, hg, hchild⟩ => ?_
  rw [hframes] at hg
  rcases List.mem_append.1 hg with hg | hg
  · refine (hrest g hg child hchild).imp_right fun ⟨top, htop, hbelow⟩ => ?_
    exact ⟨top, ⟨f, by simp [hf], htop⟩, hbelow⟩
  · rw [children_outer h.sound.tree (hf ▸ h.sound.framed) hedits.changes g hg] at hchild
    exact .inr ⟨child, ⟨g, by simp [hf, hg], hchild⟩, .self⟩

theorem Passed.opened {id : NodeId}
    (hframes : t'.frames = ⟨id, 0⟩ :: ⟨f.parent, f.index + 1⟩ :: below)
    (hid : id ∈ (t.document.children f.parent).drop f.index ∨ id = t.document.size)
    (hrest : (t'.document.children f.parent).drop (f.index + 1) ⊆
      (t.document.children f.parent).drop f.index) : t'.Passed c := by
  refine h.inner hf hs hedits hlive (show _ = [_, _] ++ below from hframes)
    fun g hg child hchild => ?_
  rcases List.mem_pair.1 hg with rfl | rfl
  · have hchild := List.mem_of_mem_drop hchild
    rcases hid with hold | rfl
    · exact .inr ⟨id, hold, .child .self hchild⟩
    · exact .inl (Nat.le_of_lt (hs.tree.lt hchild))
  · exact .inr ⟨child, hrest hchild, .self⟩

theorem Passed.visited {index : Nat} (hframes : t'.frames = ⟨f.parent, index⟩ :: below)
    (hrest : (t'.document.children f.parent).drop index ⊆
      (t.document.children f.parent).drop f.index) : t'.Passed c := by
  refine h.inner hf hs hedits hlive (show _ = [_] ++ below from hframes) fun g hg child hchild => ?_
  obtain rfl := List.mem_singleton.1 hg
  exact .inr ⟨child, hrest hchild, .self⟩

end Innermost

theorem drop_succ_take_append {α : Type} {l : List α} {i : Nat} (h : i ≤ l.length) (a : α)
    (rest : List α) : (l.take i ++ a :: rest).drop (i + 1) = rest := by
  rw [List.append_cons]
  exact List.drop_left' (by simp [h])

theorem Passed.openElement (h : t.Passed c) (name key : String) :
    ∃ r, t.openElement name key = .ok r ∧ r.2.Passed c := by
  cases hf : t.frames with
  | nil => exact ⟨(none, t), by simp [KeyedDom.openElement, hf], h⟩
  | cons f below =>
    obtain ⟨id, t', ht', hmoves, hframes, -⟩ := moves_openElement h.sound hf name key
    obtain ⟨e, he, hindex⟩ := h.sound.current hf
    refine ⟨_, ht', ?_⟩
    rcases t.exists_match_or_forall name key (e.children.drop f.index) with
      ⟨before, n, after, hsplit, hn, hbefore⟩ | hnone
    · have heq := openElement_found h.sound hf he hsplit hn hbefore
      rw [ht'] at heq
      cases heq
      refine h.opened hf hmoves.sound hmoves.edits ?live hframes (.inl ?_) ?_
      case live => exact (Document.isLive_updateElement ..).trans h.live
      · rw [Document.children_of_element? he, hsplit]
        simp
      · rw [Document.children_setChildren_self he, drop_succ_take_append hindex,
          Document.children_of_element? he, hsplit]
        simp
    · have heq := openElement_new h.sound hf he hnone
      rw [ht'] at heq
      cases heq
      refine h.opened hf hmoves.sound hmoves.edits ?live hframes (.inr rfl) ?_
      case live => simp [Document.isLive_adopt, h.live]
      · rw [Document.children_of_element? (Document.element?_adopt he),
          insertIdx_eq_take_append hindex, drop_succ_take_append hindex,
          Document.children_of_element? he]
        exact List.Subset.refl _

theorem Passed.writeText (h : t.Passed c) (value : String) :
    ∃ r, t.writeText value = .ok r ∧ r.2.Passed c := by
  cases hf : t.frames with
  | nil => exact ⟨(none, t), by simp [KeyedDom.writeText, hf], h⟩
  | cons f below =>
    obtain ⟨id, t', ht', hmoves, hframes, -⟩ := moves_writeText h.sound hf value
    obtain ⟨e, he, hindex⟩ := h.sound.current hf
    refine ⟨_, ht', ?_⟩
    by_cases hold : ∃ id old, e.children[f.index]? = some id ∧
        t.document.content? id = some (.text old)
    · obtain ⟨id, old, hid, hc⟩ := hold
      have heq := writeText_found hf he hid hc value
      rw [ht'] at heq
      cases heq
      have hshape : t.document.SameShape (t.document.setContent id (.text value)) :=
        .setContent (by simp [Document.children, Document.element?, hc]) (by simp)
      refine h.visited hf hmoves.sound hmoves.edits ((hshape.live c).trans h.live) hframes ?_
      rw [hshape.children]
      exact List.drop_subset_drop_left _ (Nat.le_succ _)
    · push Not at hold
      have heq := writeText_new h.sound hf he (fun id old => hold id old) value
      rw [ht'] at heq
      cases heq
      refine h.visited hf hmoves.sound hmoves.edits ?live hframes ?_
      case live => simp [Document.isLive_adopt, h.live]
      · rw [Document.children_of_element? (Document.element?_adopt he),
          insertIdx_eq_take_append hindex, drop_succ_take_append hindex,
          Document.children_of_element? he]
        exact List.Subset.refl _

theorem isLive_pruned {d : Document} {e : Element} (hd : d.IsTree)
    (he : d.element? f.parent = some e) (hlive : d.isLive c = true)
    (hapart : ∀ child ∈ (d.children f.parent).drop f.index, ¬ d.Below child c) :
    (pruned d f).isLive c = true := by
  have hkept : ¬ (d.setChildren f.parent ((d.children f.parent).take f.index)).BelowAny
      ((d.children f.parent).drop f.index) c := by
    intro hb
    obtain ⟨child, hchild, hbelow⟩ := below_of_belowAny_drop he hb
    exact hapart child hchild hbelow
  rw [Document.isLive, ((pruned_erasesTo hd he).2 c).2 hkept, ← Document.isLive]
  exact (Document.isLive_updateElement ..).trans hlive

theorem Passed.isLive_pruned (h : t.Passed c) (hf : t.frames = f :: below) :
    (pruned t.document f).isLive c = true := by
  obtain ⟨e, he, -⟩ := h.sound.current hf
  exact KeyedDom.isLive_pruned h.sound.tree he h.live
    fun child hchild => h.apart child ⟨f, by simp [hf], hchild⟩

theorem Passed.closeElement (h : t.Passed c) : ∃ r, t.closeElement = .ok r ∧ r.2.Passed c := by
  match hf : t.frames with
  | [] => exact ⟨(none, t), by simp [KeyedDom.closeElement, hf], h⟩
  | [f] => exact ⟨(none, t), by simp [KeyedDom.closeElement, hf], h⟩
  | f :: g :: below =>
    obtain ⟨id, t', ht', hmoves, hframes⟩ := moves_closeElement h.sound hf
    have heq := closeElement_eq h.sound hf
    rw [ht'] at heq
    cases heq
    have hlive := h.isLive_pruned hf
    refine ⟨_, ht', h.inner hf hmoves.sound hmoves.edits hlive (show _ = [] ++ _ from hframes) ?_⟩
    simp

theorem Passed.setDocument (h : t.Passed c) {d : Document} (hs : (t.setDocument d).Sound)
    (hshape : t.document.SameShape d) : (t.setDocument d).Passed c := by
  refine h.reshaped hs hshape fun child ⟨f, hf, hchild⟩ => ⟨f, hf, ?_⟩
  rwa [document_setDocument, hshape.children] at hchild

theorem Passed.updateElement (h : t.Passed c) (p : NodeId) {change : Element → Element}
    (hc : ∀ e, (change e).children = e.children) :
    (t.setDocument (t.document.updateElement p change)).Passed c :=
  h.setDocument (h.sound.updateElement p hc) (.updateElement _ p hc)

theorem Passed.changeCurrent (h : t.Passed c) {change : Element → Element}
    (hc : ∀ e, (change e).children = e.children) :
    ∃ t', t.changeCurrent change = .ok t' ∧ t'.Passed c := by
  cases hf : t.frames with
  | nil => exact ⟨t, by simp [KeyedDom.changeCurrent, hf], h⟩
  | cons f below => exact ⟨_, changeCurrent_eq h.sound hf change, h.updateElement f.parent hc⟩

theorem Passed.setAttributes (h : t.Passed c) (attributes : List (String × String)) :
    ∃ t', t.setAttributes attributes = .ok t' ∧ t'.Passed c := by
  induction attributes generalizing t with
  | nil => exact ⟨t, rfl, h⟩
  | cons a rest ih =>
    have hfirst : ∃ t₁, t.changeCurrent (Element.setAttribute a.1 a.2) = .ok t₁ ∧ t₁.Passed c :=
      h.changeCurrent fun _ => rfl
    obtain ⟨t₁, ht₁, h₁⟩ := hfirst
    obtain ⟨t₂, ht₂, h₂⟩ := ih h₁
    refine ⟨t₂, ?_, h₂⟩
    simp only [KeyedDom.setAttributes, List.foldlM_cons, ht₁, bind, Except.bind]
    exact ht₂

theorem Passed.assigned (h : t.Passed c) {call : TargetCall} (hc : call.Assigns) :
    ∃ t', apply call t = .ok (none, t') ∧ t'.Passed c := by
  cases call with
  | setAttribute name value =>
    obtain ⟨t', ht', hp⟩ := h.setAttributes [(name, value)]
    exact ⟨t', by simp only [apply, ht', Except.map], hp⟩
  | setProperty name value =>
    have hchange : ∃ t', t.changeCurrent (Element.setProperty name value.toText) = .ok t' ∧
        t'.Passed c := h.changeCurrent fun _ => rfl
    obtain ⟨t', ht', hp⟩ := hchange
    exact ⟨t', by simp only [apply, ht', Except.map], hp⟩
  | _ => exact hc.elim

theorem Passed.skipTo (h : t.Passed c) {target : Nat → Nat → Nat}
    (hle : ∀ index count, target index count ≤ count)
    (hge : ∀ index count, index ≤ count → index ≤ target index count) :
    (t.skipTo target).Passed c := by
  have hs := h.sound.skipTo hle
  cases hf : t.frames with
  | nil =>
    rw [KeyedDom.skipTo, hf]
    exact h
  | cons f below =>
    obtain ⟨e, he, hindex⟩ := h.sound.current hf
    have hge := hge f.index _ (Document.children_of_element? he ▸ hindex)
    have hframes : (t.skipTo target).frames =
        ⟨f.parent, target f.index (t.document.children f.parent).length⟩ :: below := by
      rw [KeyedDom.skipTo, hf]
    refine h.visited hf hs (moves_skipTo h.sound hf hle).1.edits ?live hframes ?_
    case live =>
      rw [document_skipTo]
      exact h.live
    · rw [document_skipTo]
      exact List.drop_subset_drop_left _ hge

def skipped (t : KeyedDom) : KeyedDom := t.skipTo fun index count => min (index + 1) count

theorem Passed.skipped (h : t.Passed c) : t.skipped.Passed c :=
  h.skipTo (fun _ _ => Nat.min_le_right _ _) fun _ _ hle => by omega

theorem Passed.setComment (h : t.Passed c) (id : NodeId) (value : String) :
    (t.setComment id value).Passed c := by
  have hshape := Document.SameShape.setComment t.document id value
  refine h.reshaped (h.sound.setComment id value) ?_ fun child ⟨f, hf, hchild⟩ => ⟨f, ?_, ?_⟩
  · rwa [document_setComment]
  · rwa [frames_setComment] at hf
  · rwa [document_setComment, hshape.children] at hchild

theorem Passed.stayed (h : t.Passed c) {call : TargetCall} (hc : call.Stays) :
    ∃ t', apply call t = .ok (none, t') ∧ t'.Passed c := by
  cases call with
  | skip => exact ⟨_, rfl, h.skipTo (fun _ count => Nat.le_refl count) fun _ _ hle => hle⟩
  | skipNode => exact ⟨_, rfl, h.skipped⟩
  | applyAttributes => exact ⟨t, rfl, h⟩
  | applyStatics attributes =>
    obtain ⟨t', ht', hp⟩ := h.setAttributes attributes
    exact ⟨t', by simp only [apply, ht', Except.map], hp⟩
  | setComment id value => exact ⟨_, rfl, h.setComment id value⟩
  | _ => exact hc.elim

theorem unvisited_of_appended {p child : NodeId} {e : Element} {content : Content}
    (hchild : t'.Unvisited child) (he : t.document.element? p = some e)
    (hc : ∀ e', content = .element e' → e'.children = [])
    (hdocument : t'.document = t.document.adopt p e.children.length content)
    (hframes : t'.frames = t.frames) :
    t.document.size ≤ child ∨ t.Unvisited child := by
  obtain ⟨f, hf, hchild⟩ := hchild
  rw [hframes] at hf
  rw [hdocument, Document.children_adopt he hc] at hchild
  split at hchild
  · next hp =>
    rw [List.insertIdx_length_self, List.drop_append] at hchild
    rcases List.mem_append.1 hchild with hold | hnew
    · refine .inr ⟨f, hf, ?_⟩
      rwa [hp, Document.children_of_element? he]
    · obtain rfl := List.mem_singleton.1 (List.mem_of_mem_drop hnew)
      exact .inl (Nat.le_refl _)
  · exact .inr ⟨f, hf, hchild⟩

theorem Passed.appendComment (h : t.Passed c) (p : NodeId) (value : String) :
    ∃ r, t.appendComment p value = .ok r ∧ r.2.Passed c := by
  obtain ⟨r, hr, hs⟩ := h.sound.appendComment p value
  refine ⟨r, hr, ?_⟩
  cases he : t.document.element? p with
  | none =>
    simp only [KeyedDom.appendComment, he, Except.ok.injEq] at hr
    exact hr ▸ h
  | some e =>
    rw [appendComment_eq he value] at hr
    cases hr
    have hempty : ∀ e', Content.comment value = .element e' → e'.children = [] := by simp
    have hedits : t.document.EditsBelow p _ := .adopt he hempty (Nat.le_refl e.children.length)
    refine h.change hs hedits.toGains (by simp [Document.isLive_adopt, h.live])
      fun child hchild => (unvisited_of_appended hchild he hempty rfl rfl).imp_right fun hold => ?_
    exact ⟨child, hold, .self⟩

theorem Passed.setInnerMarkup (h : t.Passed c) {node : NodeId}
    (hf : t.frames = ⟨node, 0⟩ :: below) (markup : String) :
    ∃ t', t.setInnerMarkup node markup = .ok t' ∧ t'.Passed c ∧ t'.frames = t.frames := by
  obtain ⟨e, he, -⟩ := h.sound.current hf
  obtain ⟨t', ht', hmoves, hframes⟩ := moves_setInnerMarkup h.sound hf markup
  have heq := setInnerMarkup_eq he markup
  rw [ht'] at heq
  cases heq
  refine ⟨_, ht', h.visited hf hmoves.sound hmoves.edits ?live (hframes.trans hf) ?_, hframes⟩
  case live => exact (Document.isLive_updateElement ..).trans (h.isLive_pruned hf)
  · rw [Document.children_updateElement _ _ _ (by simp), children_pruned h.sound.tree he]
    simp

theorem Passed.updateRecord (h : t.Passed c) (id : NodeId) (change : NodeRecord → NodeRecord) :
    (t.setDocument (t.document.updateRecord id change)).Passed c := h.updateElement id fun _ => rfl

theorem Passed.attached (h : t.Passed c) (id : ComponentId) (component : Component)
    (root : NodeId) : (t.setDocument (attachedDocument t.document id component root)).Passed c :=
  Document.of_attachedDocument (P := fun d => (t.setDocument d).Passed c) h fun _ node _ hd =>
    hd.updateRecord node _

/-- What was passed stays passed, whatever a script does that keeps a target sound. -/
theorem stable_passed (c : NodeId) : Stable soundScope 0 fun _ t _ => t.Passed c where
  reentered _ := trivial
  grows h _ := h
  created _ := trivial
  opened _ k t g name key h := by
    obtain ⟨r, hr, -, hopened⟩ := h.sound.opened name key
    obtain ⟨r', hr', hp⟩ := h.openElement name key
    obtain rfl : r = r' := Except.ok.inj (hr.symm.trans hr')
    exact .of_ok hr ⟨hp, fun node hnode => ⟨hopened node hnode, trivial⟩⟩
  closed _ k t g h := by
    obtain ⟨r, hr, hp⟩ := h.closeElement
    exact .of_ok hr hp
  wrote _ k t g value h := by
    obtain ⟨r, hr, hp⟩ := h.writeText value
    exact .of_ok hr ⟨hp, fun _ _ => trivial⟩
  assigned _ k t g call hc h := by
    obtain ⟨t', ht', -, hframes⟩ := h.sound.assigned hc
    obtain ⟨t'', ht'', hp⟩ := h.assigned hc
    obtain rfl : t' = t'' := congrArg Prod.snd (Except.ok.inj (ht'.symm.trans ht''))
    exact .of_ok ht' ⟨hp, fun node hnode => Opened.congr hnode hframes⟩
  stayed _ k t g call hc h := by
    obtain ⟨t', ht', hp⟩ := h.stayed hc
    exact .of_ok ht' hp
  appended _ k t g node value h _ := by
    obtain ⟨r, hr, hp⟩ := h.appendComment node value
    exact .of_ok hr hp
  filled _ k t g node markup h hn := by
    obtain ⟨below, hf⟩ := Opened.cons hn
    obtain ⟨t', ht', hp, hframes⟩ := h.setInnerMarkup hf markup
    exact .of_ok_map ht' ⟨hp, Opened.congr hn hframes⟩
  recorded _ k t g node change h _ _ := h.updateRecord node change
  described _ k t g node h hn := stable_sound.described rfl (k := k) (g := g) h.sound hn
  found _ _ _ _ _ _ _ _ _ := trivial
  attached _ k t g id root c h _ _ _ := h.attached id c root
  direct _ k t g i call h hc hi := by
    cases i with
    | appendComment parent value =>
      cases hc
      obtain ⟨r, hr, hp⟩ := h.appendComment parent value
      exact .of_ok hr hp
    | setComment node value =>
      cases hc
      exact h.setComment node value
    | setInnerMarkup node markup => exact hi.elim
    | _ => cases hc
  inspected _ _ _ _ _ _ hi := hi.elim

theorem Passed.endPatch (h : t.Passed c) : ∃ t', t.endPatch = .ok t' ∧ t'.Passed c := by
  obtain ⟨t', ht', hs, hframes⟩ := h.sound.endPatch
  refine ⟨t', ht', hs, ?_, fun child ⟨f, hf, _⟩ => by simp [hframes] at hf⟩
  match hf : t.frames, hm : t.mode with
  | [f], .inner =>
    rw [endPatch_eq h.sound hf hm] at ht'
    cases ht'
    exact h.isLive_pruned hf
  | [f], .outer =>
    simp only [KeyedDom.endPatch, hf, hm, bind, Except.bind, pure, Except.pure] at ht'
    cases ht'
    exact h.live
  | [], _ =>
    simp only [KeyedDom.endPatch, hf, bind, Except.bind, pure, Except.pure] at ht'
    cases ht'
    exact h.live
  | _ :: _ :: _, _ =>
    simp only [KeyedDom.endPatch, hf, bind, Except.bind, pure, Except.pure] at ht'
    cases ht'
    exact h.live

end KeyedDom

end KeyedRender

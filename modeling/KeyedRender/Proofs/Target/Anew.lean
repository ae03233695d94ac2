import KeyedRender.Proofs.Document.Attaching
import KeyedRender.Proofs.Render.Mirror
import KeyedRender.Proofs.Target.Replay
import KeyedRender.Proofs.Target.Writing

/-!
# Drawing anew on both targets

As long as a pass draws on a keyed target that was new, all children of the open elements count
as visited. Then there is never a node at the pointer, nothing is found again and nothing is
dropped, and a markup target mirrors the keyed one.
-/
namespace KeyedRender

open MarkupWriter (root)

/-- A keyed target that goes on drawing what a markup target draws. -/
structure Anew (t : KeyedDom) (w : MarkupWriter) : Prop where
  sound : t.Sound
  documents : t.document.plain = w.document.plain
  frames : t.frames = w.opened.map fun id => ⟨id, (t.document.children id).length⟩
  opened : w.opened ≠ []
  mode : t.mode = .inner

namespace Anew

variable {t : KeyedDom} {w : MarkupWriter}

theorem exists_frames (h : Anew t w) : ∃ top rest, w.opened = top :: rest ∧
    t.frames = ⟨top, (t.document.children top).length⟩ ::
      rest.map (fun id => ⟨id, (t.document.children id).length⟩) ∧
    ∀ id ∈ rest, id ≠ top := by
  obtain ⟨top, rest, hopened⟩ := List.exists_cons_of_ne_nil h.opened
  have hframes := h.frames
  rw [hopened, List.map_cons] at hframes
  have hframed := h.sound.framed
  rw [hframes] at hframed
  refine ⟨top, rest, hopened, hframes, fun id hid => ?_⟩
  exact hframed.parent_ne h.sound.tree _ (List.mem_map_of_mem hid)

theorem exists_element (h : Anew t w) {top : NodeId} {rest : List NodeId}
    (hopened : w.opened = top :: rest) : ∃ e, t.document.element? top = some e := by
  have hframes := h.frames
  rw [hopened, List.map_cons] at hframes
  obtain ⟨e, he, -⟩ := h.sound.current hframes
  exact ⟨e, he⟩

theorem children_eq (h : Anew t w) (id : NodeId) :
    w.document.children id = t.document.children id := by
  rw [← Document.children_plain, ← h.documents, Document.children_plain]

theorem size_eq (h : Anew t w) : w.document.size = t.document.size := by
  rw [← Document.size_plain, ← h.documents, Document.size_plain]

theorem element?_eq (h : Anew t w) {id : NodeId} {e : Element}
    (he : t.document.element? id = some e) :
    ∃ e', w.document.element? id = some e' ∧ e'.children = e.children := by
  have hplain := Document.element?_plain t.document id
  rw [h.documents, Document.element?_plain, he] at hplain
  obtain ⟨e', he', heq⟩ := Option.map_eq_some_iff.1 hplain
  refine ⟨e', he', ?_⟩
  change (e'.plain (id != 0)).children = (e.plain (id != 0)).children
  rw [heq]

def grown (t : KeyedDom) (top : NodeId) (content : Content) : Document :=
  t.document.adopt top (t.document.children top).length content

section Grown

variable (h : Anew t w) {top : NodeId} {rest : List NodeId} (hopened : w.opened = top :: rest)
  {content content' : Content} (hempty : ∀ e, content = .element e → e.children = [])
  (hplain : ∀ named, content.plain named = content'.plain named)
include h

theorem append_fst : (w.append content').1 = t.document.size := h.size_eq

include hopened

include hplain in
theorem plain_grown : (grown t top content).plain = (w.append content').2.document.plain := by
  obtain ⟨e, he⟩ := h.exists_element hopened
  obtain ⟨e', he', hchildren⟩ := h.element?_eq he
  rw [MarkupWriter.append_eq hopened, MarkupWriter.document_appendTo he', grown,
    Document.plain_adopt, Document.plain_adopt, h.documents, h.size_eq, hplain, hchildren,
    Document.children_of_element? he]

include hempty

theorem children_grown (id : NodeId) : ((grown t top content).children id).length =
    if id = top then (t.document.children top).length + 1
    else (t.document.children id).length := by
  obtain ⟨e, he⟩ := h.exists_element hopened
  rw [grown, Document.children_adopt he hempty]
  split
  · rw [Document.children_of_element? he, List.length_insertIdx_of_le_length (Nat.le_refl _)]
  · rfl

theorem frames_grown (hrest : ∀ id ∈ rest, id ≠ top) :
    w.opened.map (fun id => (⟨id, ((grown t top content).children id).length⟩ : Frame)) =
      ⟨top, (t.document.children top).length + 1⟩ ::
        rest.map fun id => ⟨id, (t.document.children id).length⟩ := by
  rw [hopened, List.map_cons, h.children_grown hopened hempty, if_pos rfl]
  refine congrArg _ (List.map_congr_left fun id hid => ?_)
  rw [h.children_grown hopened hempty, if_neg (hrest id hid)]

end Grown

theorem openElement (h : Anew t w) (name key : String) : ∃ t',
    t.openElement name key = .ok (some (w.openElement name).1, t') ∧
    Anew t' (w.openElement name).2 ∧
    t'.document.element? (w.openElement name).1 = some (.new name key) := by
  obtain ⟨top, rest, hopened, hframes, hrest⟩ := h.exists_frames
  obtain ⟨e, he⟩ := h.exists_element hopened
  have hempty : ∀ e, Content.element (.new name key) = .element e → e.children = [] := by
    rintro _ ⟨⟩
    rfl
  have hnone : ∀ b ∈ e.children.drop (t.document.children top).length,
      t.accepts name key b = false := by
    rw [Document.children_of_element? he, List.drop_length]
    simp
  have hopen := KeyedDom.openElement_new h.sound hframes he hnone
  obtain ⟨r, hr, hsound⟩ := h.sound.openElement name key
  obtain rfl := Except.ok.inj (hr.symm.trans hopen)
  have hnew : (grown t top (.element (.new name key))).element? t.document.size =
      some (.new name key) :=
    Document.element?_eq_some_iff.2 (by
      rw [Document.content?, grown, Document.node?_adopt_size he]
      rfl)
  have hid : (w.openElement name).1 = t.document.size := h.size_eq
  rw [hid]
  refine ⟨_, hopen, ⟨hsound, h.plain_grown hopened fun _ => rfl, ?_, List.cons_ne_nil _ _, h.mode⟩, hnew⟩
  have hinner : (w.openElement name).2.opened = t.document.size :: w.opened :=
    congrArg (· :: w.opened) h.size_eq
  rw [hinner, List.map_cons]
  change _ = (⟨_, ((grown t top (.element (.new name key))).children _).length⟩ : Frame) ::
    w.opened.map fun id => ⟨id, ((grown t top (.element (.new name key))).children id).length⟩
  rw [h.frames_grown hopened hempty hrest, Document.children_of_element? hnew]
  rfl

theorem closeElement (h : Anew t w) : ∃ t',
    t.closeElement = .ok (w.closeElement.1, t') ∧ Anew t' w.closeElement.2 := by
  obtain ⟨top, rest, hopened, hframes, -⟩ := h.exists_frames
  cases rest with
  | nil =>
    refine ⟨t, ?_, ?_⟩
    · simp [KeyedDom.closeElement, hframes, MarkupWriter.closeElement, hopened]
    · simpa [MarkupWriter.closeElement, hopened] using h
  | cons next rest =>
    obtain ⟨e, he⟩ := h.exists_element hopened
    have hclose := KeyedDom.closeElement_eq h.sound hframes
    rw [KeyedDom.pruned_eq_self he (Nat.le_of_eq (congrArg List.length
      (Document.children_of_element? he).symm))] at hclose
    obtain ⟨r, hr, hsound⟩ := h.sound.closeElement
    obtain rfl := Except.ok.inj (hr.symm.trans hclose)
    have hwriter : w.closeElement = (some top, { w with opened := next :: rest }) := by
      simp [MarkupWriter.closeElement, hopened]
    rw [hwriter]
    exact ⟨_, hclose, hsound, h.documents, rfl, List.cons_ne_nil _ _, h.mode⟩

theorem writeText (h : Anew t w) (value : String) : ∃ t',
    t.writeText value = .ok (some (w.append (.text value)).1, t') ∧
    Anew t' (w.append (.text value)).2 := by
  obtain ⟨top, rest, hopened, hframes, hrest⟩ := h.exists_frames
  obtain ⟨e, he⟩ := h.exists_element hopened
  have hempty : ∀ e, Content.text value = .element e → e.children = [] := by simp
  have hno : ∀ id old, e.children[(t.document.children top).length]? = some id →
      t.document.content? id ≠ some (.text old) := by
    intro id old hid
    rw [Document.children_of_element? he] at hid
    simp at hid
  have hwrite := KeyedDom.writeText_new h.sound hframes he hno value
  obtain ⟨r, hr, hsound⟩ := h.sound.writeText value
  obtain rfl := Except.ok.inj (hr.symm.trans hwrite)
  rw [h.append_fst]
  refine ⟨_, hwrite, hsound, h.plain_grown hopened fun _ => rfl, ?_, h.opened, h.mode⟩
  exact (h.frames_grown hopened hempty hrest).symm

theorem appendComment (h : Anew t w) {top : NodeId} {rest : List NodeId}
    (hopened : w.opened = top :: rest) (value : String) : ∃ t' f below,
    t.appendComment top value = .ok (some (w.append (.comment value)).1, t') ∧
    t'.frames = f :: below ∧ (t'.document.children f.parent).length = f.index + 1 ∧
    Anew { t' with frames := { f with index := f.index + 1 } :: below }
      (w.append (.comment value)).2 := by
  obtain ⟨_, _, hopened', hframes, hrest⟩ := h.exists_frames
  obtain ⟨rfl, rfl⟩ := List.cons.inj (hopened.symm.trans hopened')
  obtain ⟨e, he⟩ := h.exists_element hopened
  have hempty : ∀ e, Content.comment value = .element e → e.children = [] := by simp
  have happend := KeyedDom.appendComment_eq he value
  rw [← Document.children_of_element? he] at happend
  have hlength : ((grown t top (.comment value)).children top).length =
      (t.document.children top).length + 1 := by
    rw [h.children_grown hopened hempty, if_pos rfl]
  obtain ⟨r, hr, hsound⟩ := h.sound.appendComment top value
  obtain rfl := Except.ok.inj (hr.symm.trans happend)
  rw [h.append_fst]
  refine ⟨_, _, _, happend, hframes, hlength, ⟨hsound.tree, ?_⟩,
    h.plain_grown hopened fun _ => rfl, (h.frames_grown hopened hempty hrest).symm, h.opened,
    h.mode⟩
  have hframed : Framed (grown t top (.comment value)) _ := hframes ▸ hsound.framed
  exact hframed.replace (Nat.le_of_eq hlength.symm)

theorem replaced (h : Anew t w) {d d' : Document} (hsound : (t.setDocument d).Sound)
    (hplain : d.plain = d'.plain) (hchildren : ∀ id, d.children id = t.document.children id) :
    Anew (t.setDocument d) (w.setDocument d') := by
  refine ⟨hsound, hplain, ?_, h.opened, h.mode⟩
  rw [KeyedDom.frames_setDocument, h.frames]
  exact List.map_congr_left fun id _ => by rw [KeyedDom.document_setDocument, hchildren]

theorem updated (h : Anew t w) (id : NodeId) (change change' both : Element → Element)
    (hchildren : ∀ e, (change e).children = e.children)
    (hchange : ∀ named e, (change e).plain named = both (e.plain named))
    (hchange' : ∀ named e, (change' e).plain named = both (e.plain named)) :
    Anew (t.setDocument (t.document.updateElement id change))
      (w.setDocument (w.document.updateElement id change')) := by
  refine h.replaced (h.sound.updateElement id hchildren) ?_ fun other =>
    Document.children_updateElement _ _ _ hchildren
  rw [Document.plain_updateElement _ hchange, Document.plain_updateElement _ hchange', h.documents]

theorem updatedRecord (h : Anew t w) (node : NodeId) (change : NodeRecord → NodeRecord) :
    Anew (t.setDocument (t.document.updateRecord node change))
      (w.setDocument (w.document.updateRecord node change)) :=
  let update : Element → Element := fun e => { e with record := change e.record }
  h.updated node update update update (fun _ => rfl) (fun _ _ => rfl) fun _ _ => rfl

theorem attached (h : Anew t w) (id : ComponentId) (c : Component) (node : NodeId) :
    Anew (t.setDocument (attachedDocument t.document id c node))
      (w.setDocument (attachedDocument w.document id c node)) := by
  refine h.replaced (h.sound.attached id c node) ?_
    (Document.children_attachedDocument t.document id c node)
  rw [Document.plain_attachedDocument, Document.plain_attachedDocument, h.documents]

section Current

variable (h : Anew t w) {top : NodeId} {rest : List NodeId} (hopened : w.opened = top :: rest)

include h hopened

theorem changeCurrent (change : Element → Element) : t.changeCurrent change =
    .ok (t.setDocument (t.document.updateElement top change)) := by
  have hframes := h.frames
  rw [hopened, List.map_cons] at hframes
  exact KeyedDom.changeCurrent_eq h.sound hframes change

theorem setAttribute (name value : String) :
    Anew (t.setDocument (t.document.updateElement top (Element.setAttribute name value)))
      (w.setAttribute name value) := by
  rw [MarkupWriter.setAttribute_eq hopened]
  exact h.updated top (Element.setAttribute name value) (Element.setAttribute name value)
    (Element.setAttribute name value) (fun _ => rfl) (fun _ _ => rfl) fun _ _ => rfl

theorem setProperty (name value : String) :
    Anew (t.setDocument (t.document.updateElement top (Element.setProperty name value))) w := by
  obtain ⟨e, he⟩ := h.exists_element hopened
  obtain ⟨e', he', -⟩ := h.element?_eq he
  have hnext := h.updated top (Element.setProperty name value) (fun e => e) (fun e => e)
    (fun _ => rfl) (fun _ _ => rfl) fun _ _ => rfl
  rwa [Document.updateElement_eq_self he' rfl] at hnext

end Current

theorem opened_setAttribute (w : MarkupWriter) (name value : String) :
    (w.setAttribute name value).opened = w.opened := by
  unfold MarkupWriter.setAttribute
  split <;> rfl

theorem setAttributes (h : Anew t w) (attributes : List (String × String)) : ∃ t',
    t.setAttributes attributes = .ok t' ∧
    Anew t' (attributes.foldl (fun w (name, value) => w.setAttribute name value) w) := by
  obtain ⟨top, rest, hopened⟩ := List.exists_cons_of_ne_nil h.opened
  induction attributes generalizing t w with
  | nil => exact ⟨t, rfl, h⟩
  | cons a next ih =>
    obtain ⟨t', ht', hrest⟩ := ih (h.setAttribute hopened a.1 a.2)
      ((opened_setAttribute w a.1 a.2).trans hopened)
    refine ⟨t', ?_, hrest⟩
    simp only [KeyedDom.setAttributes, List.foldlM_cons, bind, Except.bind,
      h.changeCurrent hopened]
    exact ht'

theorem skipTo (h : Anew t w) {target : Nat → Nat → Nat} (htarget : ∀ n, target n n = n) :
    t.skipTo target = t := by
  obtain ⟨top, rest, -, hframes, -⟩ := h.exists_frames
  simp only [KeyedDom.skipTo, hframes, htarget]
  rw [← hframes]

theorem setComment (h : Anew t w) (id : NodeId) (value : String) :
    Anew (t.setComment id value) (w.setDocument (w.document.setComment id value)) := by
  have hshape := Document.SameShape.setComment t.document id value
  refine ⟨h.sound.setComment id value, ?_, ?_, h.opened, by rw [KeyedDom.mode_setComment]; exact h.mode⟩
  · rw [KeyedDom.document_setComment, Document.plain_setComment, h.documents]
    exact (Document.plain_setComment ..).symm
  · rw [KeyedDom.frames_setComment, KeyedDom.document_setComment, h.frames]
    exact List.map_congr_left fun id _ => by rw [hshape.children]

theorem pointer?_none (h : Anew t w) : t.pointer? = none := by
  obtain ⟨top, rest, -, hframes, -⟩ := h.exists_frames
  simp [KeyedDom.pointer?, hframes]

theorem current?_eq (h : Anew t w) : t.current? = w.current? := by
  obtain ⟨top, rest, hopened, hframes, -⟩ := h.exists_frames
  simp [KeyedDom.current?, hframes, MarkupWriter.current?, hopened]

theorem setInnerMarkup (h : Anew t w) {node : NodeId} {e : Element}
    (he : t.document.element? node = some e) (hbare : e.children = []) (markup : String) : ∃ t',
    t.setInnerMarkup node markup = .ok t' ∧ Anew t' (w.setInnerMarkup node markup) := by
  have hset := KeyedDom.setInnerMarkup_eq he markup
  rw [KeyedDom.pruned_eq_self (f := ⟨node, 0⟩) he (by simp [hbare])] at hset
  have hnext := h.updated node (fun e => { e with raw := some markup })
    (fun e => { e with raw := some markup }) (fun e => { e with raw := some markup })
    (fun _ => rfl) (fun _ _ => rfl) fun _ _ => rfl
  exact ⟨_, hset, ⟨hnext.sound.tree, hnext.sound.framed⟩, hnext.documents, hnext.frames, hnext.opened,
    hnext.mode⟩

def Opened (node : NodeId) (t : KeyedDom) (w : MarkupWriter) : Prop :=
  Anew t w ∧ ∃ e, t.document.element? node = some e ∧ e.children = [] ∧ e.raw = none

def Commented (t : KeyedDom) (w : MarkupWriter) : Prop :=
  ∃ f below, t.frames = f :: below ∧ (t.document.children f.parent).length = f.index + 1 ∧
    Anew { t with frames := { f with index := f.index + 1 } :: below } w

theorem plain (h : Anew t w) {call : TargetCall} (hcall : call.IsPlain) :
    Together call t w fun _ => Anew := by
  cases call with
  | beginPatch root mode rule => exact hcall.elim
  | endPatch => exact hcall.elim
  | openElement name key => exact hcall.elim
  | setInnerMarkup node markup => exact hcall.elim
  | appendComment parent value => exact hcall.elim
  | closeElement =>
    obtain ⟨t', ht', hnext⟩ := h.closeElement
    exact ⟨_, t', _, ht', rfl, hnext⟩
  | text value =>
    obtain ⟨t', ht', hnext⟩ := h.writeText value
    exact ⟨_, t', _, ht', rfl, hnext⟩
  | setAttribute name value =>
    obtain ⟨t', ht', hnext⟩ := h.setAttributes [(name, value)]
    exact ⟨none, t', _, congrArg (Except.map (none, ·)) ht', rfl, hnext⟩
  | setProperty name value =>
    obtain ⟨top, rest, hopened⟩ := List.exists_cons_of_ne_nil h.opened
    exact ⟨none, _, w, congrArg (Except.map (none, ·)) (h.changeCurrent hopened _), rfl,
      h.setProperty hopened name value.toText⟩
  | skip =>
    refine ⟨none, t, w, ?_, rfl, h⟩
    change Except.ok (none, t.skipTo fun _ count => count) = _
    rw [h.skipTo fun _ => rfl]
  | skipNode =>
    refine ⟨none, t, w, ?_, rfl, h⟩
    change Except.ok (none, t.skipTo fun index count => min (index + 1) count) = _
    rw [h.skipTo fun n => Nat.min_eq_right (Nat.le_succ n)]
  | applyAttributes => exact ⟨none, t, w, rfl, rfl, h⟩
  | applyStatics attributes =>
    obtain ⟨t', ht', hnext⟩ := h.setAttributes attributes
    exact ⟨none, t', _, congrArg (Except.map (none, ·)) ht', rfl, hnext⟩
  | setComment id value => exact ⟨none, _, _, rfl, rfl, h.setComment id value⟩

theorem Opened.assigns {node : NodeId} (h : Opened node t w) {call : TargetCall}
    (hcall : call.Assigns) : Together call t w fun _ => Opened node := by
  obtain ⟨hanew, e, he, hchildren, hraw⟩ := h
  obtain ⟨top, rest, hopened⟩ := List.exists_cons_of_ne_nil hanew.opened
  obtain ⟨answer, t', w', ht', hw', hnext⟩ := hanew.plain hcall.isPlain
  refine ⟨answer, t', w', ht', hw', hnext, ?_⟩
  have hupdated : ∃ change : Element → Element,
      t'.document = t.document.updateElement top change ∧
      ∀ e, (change e).children = e.children ∧ (change e).raw = e.raw := by
    cases call with
    | setAttribute name value =>
      refine ⟨Element.setAttribute name value, ?_, fun _ => ⟨rfl, rfl⟩⟩
      have hset : KeyedDom.apply (.setAttribute name value) t = .ok (none, _) :=
        congrArg (Except.map (none, ·)) (show t.setAttributes [(name, value)] = .ok _ by
          simp only [KeyedDom.setAttributes, List.foldlM_cons, List.foldlM_nil,
            hanew.changeCurrent hopened]
          rfl)
      cases hset.symm.trans ht'
      rfl
    | setProperty name value =>
      refine ⟨Element.setProperty name value.toText, ?_, fun _ => ⟨rfl, rfl⟩⟩
      have hset : KeyedDom.apply (.setProperty name value) t = .ok (none, _) :=
        congrArg (Except.map (none, ·)) (hanew.changeCurrent hopened _)
      cases hset.symm.trans ht'
      rfl
    | _ => exact hcall.elim
  obtain ⟨change, hdocument, hsame⟩ := hupdated
  rw [hdocument, Document.element?_updateElement]
  split
  · next hnode =>
    subst hnode
    rw [he]
    exact ⟨change e, rfl, (hsame e).1.trans hchildren, (hsame e).2.trans hraw⟩
  · exact ⟨e, he, hchildren, hraw⟩

theorem Opened.hasContent {node : NodeId} (h : Opened node t w) :
    RenderTarget.hasContent t node = .ok false ∧ RenderTarget.hasContent w node = .ok false := by
  obtain ⟨hanew, e, he, hchildren, hraw⟩ := h
  have hbare : t.document.children node = [] :=
    (Document.children_of_element? he).trans hchildren
  obtain ⟨n, hn, hc⟩ := Option.map_eq_some_iff.1 (Document.element?_eq_some_iff.1 he)
  refine ⟨?_, ?_⟩
  · change t.hasContent node = _
    rw [KeyedDom.hasContent, hbare, KeyedDom.liveNode_eq hn]
    simp [hc, hraw, bind, Except.bind, pure, Except.pure]
  · change Except.ok (!(w.document.children node).isEmpty) = _
    rw [hanew.children_eq, hbare]
    rfl

theorem Commented.passes (h : Commented t w) : Together .skipNode t w fun _ => Anew := by
  obtain ⟨f, below, hframes, hlength, hanew⟩ := h
  have hskip : t.skipTo (fun index count => min (index + 1) count) =
      { t with frames := { f with index := f.index + 1 } :: below } := by
    simp only [KeyedDom.skipTo, hframes, hlength, Nat.min_self]
  refine ⟨none, _, w, ?_, rfl, hanew⟩
  change Except.ok (none, t.skipTo fun index count => min (index + 1) count) = _
  rw [hskip]

end Anew

def Mirror.anew : Mirror KeyedDom MarkupWriter where
  alike := Anew
  opened := Anew.Opened
  commented := Anew.Commented
  documents h := h.documents
  pointer h := ⟨h.pointer?_none, rfl⟩
  current h := h.current?_eq
  plain h _ hcall := h.plain hcall
  opens h name key := by
    obtain ⟨t', ht', hnext, hnew⟩ := h.openElement name key
    exact ⟨_, t', _, ht', rfl, _, rfl, hnext, _, hnew, rfl, rfl⟩
  alike_of_opened h := h.1
  assigns h _ hcall := h.assigns hcall
  content h := h.hasContent.1.trans h.hasContent.2.symm
  described h hcontent := by cases h.hasContent.1.symm.trans hcontent
  fills h markup := by
    obtain ⟨hanew, e, he, hchildren, -⟩ := h
    obtain ⟨t', ht', hnext⟩ := hanew.setInnerMarkup he hchildren markup
    exact ⟨none, t', _, congrArg (Except.map (none, ·)) ht', rfl, hnext⟩
  comments {t w} h node hnode value := by
    obtain ⟨top, rest, hopened⟩ := List.exists_cons_of_ne_nil h.opened
    obtain rfl := Option.some.inj
      ((h.current?_eq.trans (MarkupWriter.current?_of_opened hopened)).symm.trans hnode)
    obtain ⟨t', f, below, ht', hframes, hlength, hnext⟩ := h.appendComment hopened value
    obtain ⟨e, he⟩ := h.exists_element hopened
    obtain ⟨e', he', -⟩ := h.element?_eq he
    have hw : RenderTarget.apply (.appendComment top value) w =
        .ok (some (w.append (.comment value)).1, (w.append (.comment value)).2) := by
      rw [MarkupWriter.append_eq hopened]
      exact congrArg Except.ok (if_pos (by rw [he']; rfl))
    exact ⟨_, t', _, ht', hw, f, below, hframes, hlength, hnext⟩
  passes h := h.passes
  records h := h.updatedRecord
  attaches h := h.attached

end KeyedRender

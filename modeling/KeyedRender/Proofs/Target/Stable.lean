import KeyedRender.Proofs.Script.Steady
import KeyedRender.Proofs.Target.Edits

/-!
# Soundness is stable

Every script that does not reach around the renderer keeps a keyed target sound, and its calls
fault for no other reason than that a component is entered again.
-/
namespace KeyedRender

/-- The fault that a correct target leaves possible. -/
def Fault.IsReentered : Fault → Prop
  | .reentered _ => True
  | _ => False

/-- Steps that go through the renderer. Those that add or rewrite a comment on the target itself
are harmless, but looking at a node that is not there is not, nor is writing raw markup into an
element that is open. -/
def Instruction.IsIndirect : Instruction → Prop
  | .inspect _ => False
  | .setInnerMarkup _ _ => False
  | _ => True

namespace KeyedDom

variable {t t' : KeyedDom} {node : NodeId}

theorem frames_changeCurrent {change : Element → Element} (h : t.changeCurrent change = .ok t') :
    t'.frames = t.frames := by
  unfold changeCurrent at h
  split at h
  · cases h
    rfl
  · next f below hf =>
    cases hn : t.liveNode f.parent with
    | error f => simp [hn, bind, Except.bind] at h
    | ok n =>
      simp only [hn, bind, Except.bind, pure, Except.pure, Except.ok.injEq] at h
      rw [← h]
      rfl

theorem head_openElement {name key : String} (h : t.openElement name key = .ok (some node, t')) :
    t'.frames.head? = some ⟨node, 0⟩ := by
  unfold openElement at h
  split at h
  · cases h
  · next f below hf =>
    cases hp : t.place f name key with
    | error f => simp [hp, bind, Except.bind] at h
    | ok r =>
      simp only [hp, bind, Except.bind, pure, Except.pure, Except.ok.injEq, Prod.mk.injEq] at h
      obtain ⟨hnode, rfl⟩ := h
      simp [← Option.some.inj hnode]

def Opened (t : KeyedDom) (node : NodeId) : Prop := t.frames.head? = some ⟨node, 0⟩

theorem Opened.cons (h : t.Opened node) : ∃ below, t.frames = ⟨node, 0⟩ :: below := by
  unfold Opened at h
  cases hf : t.frames with
  | nil => simp [hf] at h
  | cons f below =>
    rw [hf] at h
    exact ⟨below, by rw [Option.some.inj h]⟩

theorem Opened.congr (h : t.Opened node) (hf : t'.frames = t.frames) : t'.Opened node := by
  unfold Opened
  rw [hf]
  exact h

theorem Sound.opened (h : t.Sound) (name key : String) : ∃ r, t.openElement name key = .ok r ∧
    r.2.Sound ∧ ∀ node, r.1 = some node → r.2.Opened node := by
  obtain ⟨r, hr, hsound⟩ := h.openElement name key
  exact ⟨r, hr, hsound, fun node hnode => head_openElement (by rw [hr, ← hnode])⟩

theorem Sound.assigned (h : t.Sound) {call : TargetCall} (hc : call.Assigns) :
    ∃ t', apply call t = .ok (none, t') ∧ t'.Sound ∧ t'.frames = t.frames := by
  have change : ∀ {c : Element → Element}, (∀ e, (c e).children = e.children) →
      ∃ t', t.changeCurrent c = .ok t' ∧ t'.Sound ∧ t'.frames = t.frames := fun hc => by
    obtain ⟨t', ht', hs⟩ := h.changeCurrent hc
    exact ⟨t', ht', hs, frames_changeCurrent ht'⟩
  cases call with
  | setAttribute name value =>
    obtain ⟨t', ht', hs⟩ := change (c := Element.setAttribute name value) fun _ => rfl
    refine ⟨t', ?_, hs⟩
    simp only [apply, KeyedDom.setAttributes, List.foldlM_cons, List.foldlM_nil, ht', bind,
      Except.bind, pure, Except.pure, Except.map]
  | setProperty name value =>
    obtain ⟨t', ht', hs⟩ := change (c := Element.setProperty name value.toText) fun _ => rfl
    exact ⟨t', by simp only [apply, ht', Except.map], hs⟩
  | _ => exact hc.elim

theorem Sound.stayed (h : t.Sound) {call : TargetCall} (hc : call.Stays) :
    ∃ t', apply call t = .ok (none, t') ∧ t'.Sound := by
  cases call with
  | skip => exact ⟨_, rfl, h.skipTo fun _ count => Nat.le_refl count⟩
  | skipNode => exact ⟨_, rfl, h.skipTo fun index count => Nat.min_le_right _ _⟩
  | applyAttributes => exact ⟨t, rfl, h⟩
  | applyStatics attributes =>
    obtain ⟨t', ht', hs⟩ := h.setAttributes attributes
    exact ⟨t', by simp only [apply, ht', Except.map], hs⟩
  | setComment id value => exact ⟨_, rfl, h.setComment id value⟩
  | _ => exact hc.elim

theorem Sound.updateRecord (h : t.Sound) (id : NodeId) (change : NodeRecord → NodeRecord) :
    (t.setDocument (t.document.updateRecord id change)).Sound := h.updateElement id fun _ => rfl

theorem Sound.attached (h : t.Sound) (id : ComponentId) (c : Component) (root : NodeId) :
    (t.setDocument (attachedDocument t.document id c root)).Sound := by
  have hdetach : (t.setDocument (RenderM.detach t.document id c.node root)).Sound := by
    unfold RenderM.detach
    split
    · exact h
    · split
      · exact h.updateRecord _ _
      · exact h
  simp only [attachedDocument]
  split
  · exact hdetach
  · exact hdetach.updateRecord root _

theorem Sound.described (h : t.Sound) (hn : t.Opened node) :
    (∃ b, t.hasContent node = .ok b) ∧ ∃ text, t.describe node = .ok text := by
  obtain ⟨below, hf⟩ := hn.cons
  obtain ⟨e, he, -⟩ := h.current hf
  obtain ⟨n, hn⟩ := Document.isLive_iff.1 (Document.isLive_of_element? he)
  constructor
  · unfold hasContent
    split
    · exact ⟨true, rfl⟩
    · rw [liveNode_eq hn]
      simp only [bind, Except.bind]
      cases n.content <;> exact ⟨_, rfl⟩
  · unfold describe
    rw [liveNode_eq hn]
    cases hc : n.content with
    | element e => exact ⟨_, by simp only [bind, Except.bind, hc]; rfl⟩
    | text value => exact ⟨_, by simp only [bind, Except.bind, hc]; rfl⟩
    | comment value => exact ⟨_, by simp only [bind, Except.bind, hc]; rfl⟩

def soundScope : Scope KeyedDom :=
  ⟨Fault.IsReentered, Instruction.IsIndirect, fun _ => True, fun _ => True, Opened⟩

theorem stable_sound : Stable soundScope 0 fun _ t _ => t.Sound where
  reentered _ := trivial
  grows h _ := h
  created _ := trivial
  opened _ k t g name key h := by
    obtain ⟨r, hr, hs, hopened⟩ := h.opened name key
    exact .of_ok hr ⟨hs, fun node hnode => ⟨hopened node hnode, trivial⟩⟩
  closed _ k t g h := by
    obtain ⟨r, hr, hs⟩ := h.closeElement
    exact .of_ok hr hs
  wrote _ k t g value h := by
    obtain ⟨r, hr, hs⟩ := h.writeText value
    exact .of_ok hr ⟨hs, fun _ _ => trivial⟩
  assigned _ k t g call hc h := by
    obtain ⟨t', ht', hs, hframes⟩ := h.assigned hc
    exact .of_ok ht' ⟨hs, fun node hnode => Opened.congr hnode hframes⟩
  stayed _ k t g call hc h := by
    obtain ⟨t', ht', hs⟩ := h.stayed hc
    exact .of_ok ht' hs
  appended _ k t g node value h _ := by
    obtain ⟨r, hr, hs⟩ := h.appendComment node value
    exact .of_ok hr hs
  filled _ k t g node markup h hn := by
    obtain ⟨below, hf⟩ := Opened.cons hn
    obtain ⟨t', ht', hs, hframes⟩ := h.setInnerMarkup hf markup
    exact .of_ok_map ht' ⟨hs, Opened.congr hn hframes⟩
  recorded _ k t g node change h _ _ := h.updateRecord node change
  described _ k t g node h hn := by
    obtain ⟨⟨b, hb⟩, text, htext⟩ := h.described hn
    show Allows _ _ (t.hasContent node) ∧ Allows _ _ (t.describe node)
    rw [hb, htext]
    exact ⟨trivial, trivial⟩
  found _ _ _ _ _ _ _ _ _ := trivial
  attached _ k t g id root c h _ _ _ := h.attached id c root
  direct _ k t g i call h hc hi := by
    cases i with
    | appendComment parent value =>
      cases hc
      obtain ⟨r, hr, hs⟩ := h.appendComment parent value
      exact .of_ok hr hs
    | setComment node value =>
      cases hc
      exact h.setComment node value
    | setInnerMarkup node markup => exact hi.elim
    | _ => cases hc
  inspected _ _ _ _ _ _ hi := hi.elim

end KeyedDom

end KeyedRender

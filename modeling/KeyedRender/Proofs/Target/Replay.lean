import KeyedRender.Proofs.Target.Settled

/-!
# Following a plan again

On settled children a plan is followed without a change. Every opening finds its element in place:
the first child that was not visited is the one that was opened before, and it still accepts the
name and the key. Nothing is left to remove at a closing, texts and markup are there, and the
assignments to an element give back what it has.
-/
namespace KeyedRender.KeyedDom

open Document (Settled)

variable {t t₀ t₁ : KeyedDom} {p id root : NodeId} {visited ids : List NodeId} {below : List Frame}
  {f : Frame} {e : Element} {name key : String}

theorem pruned_eq_self {d : Document} (he : d.element? f.parent = some e)
    (hall : e.children.length ≤ f.index) : pruned d f = d := by
  rw [pruned, Document.children_of_element? he, List.take_of_length_le hall,
    List.drop_of_length_le hall, Document.setChildren_eq_self he, Document.dropAll_nil]

theorem writeBlob_eq_self {markup : String} (he : t.document.element? id = some e)
    (hblob : e.record.blob = some markup) : t.writeBlob id markup = .ok t := by
  have hwritten : (t.document.record? id).bind NodeRecord.blob = some markup := by
    rw [Document.record?, he]
    exact hblob
  rw [writeBlob, if_pos hwritten]

def reframed (t : KeyedDom) (frames : List Frame) : KeyedDom := { t with frames := frames }

namespace Stands

theorem reframed_eq_self (h : t.Stands p visited below) :
    t.reframed (⟨p, visited.length⟩ :: below) = t := by
  rw [reframed, ← h.frames]

theorem visit (h : t.Stands p visited below) (hids : ids <+: t.document.children p) :
    (t.reframed (⟨p, ids.length⟩ :: below)).Stands p ids below := by
  have hframed := h.sound.framed
  rw [h.frames] at hframed
  exact ⟨⟨h.sound.tree, hframed.replace hids.length_le⟩, rfl, hids⟩

theorem opens_again (h : t.Stands p visited below)
    (hid : visited ++ [id] <+: t.document.children p) (he : t.document.element? id = some e)
    (haccepts : t.rule.accepts name e.name key e.key = true) :
    t.openElement name key = .ok (some id,
      t.reframed (⟨id, 0⟩ :: ⟨p, (visited ++ [id]).length⟩ :: below)) ∧
      (t.reframed (⟨id, 0⟩ :: ⟨p, (visited ++ [id]).length⟩ :: below)).Stands id []
        (⟨p, (visited ++ [id]).length⟩ :: below) := by
  obtain ⟨after, hafter⟩ := hid
  obtain ⟨e', -, he', -⟩ := h.exists_element
  have hchildren : e'.children = visited ++ id :: after := by
    rw [← Document.children_of_element? he', ← hafter]
    simp
  have hsplit : e'.children.drop visited.length = [] ++ id :: after := by simp [hchildren]
  have hall : e'.children.take visited.length ++ id :: ([] ++ after) = e'.children := by
    simp [hchildren]
  have hopen := openElement_found h.sound h.frames he' hsplit (accepts_iff.2 ⟨e, he, haccepts⟩)
    (by simp)
  rw [hall, Document.setChildren_eq_self he'] at hopen
  obtain ⟨r, hr, hsound⟩ := h.sound.openElement name key
  rw [hopen] at hr
  cases hr
  rw [List.length_append]
  exact ⟨hopen, hsound, rfl, List.nil_prefix⟩

theorem closes_again (h : t.Stands p (t.document.children p) (f :: below)) :
    t.closeElement = .ok (some p, t.reframed (f :: below)) := by
  obtain ⟨e, -, he, -⟩ := h.exists_element
  have hall : e.children.length ≤ (t.document.children p).length :=
    Nat.le_of_eq (congrArg List.length (Document.children_of_element? he).symm)
  have hclose := closeElement_eq h.sound h.frames
  rwa [pruned_eq_self (f := ⟨p, (t.document.children p).length⟩) he hall] at hclose

theorem writes_again (h : t.Stands p visited below)
    (hid : visited ++ [id] <+: t.document.children p) {value : String}
    (hc : t.document.content? id = some (.text value)) :
    t.writeText value = .ok (some id, t.reframed (⟨p, (visited ++ [id]).length⟩ :: below)) := by
  obtain ⟨after, hafter⟩ := hid
  obtain ⟨e, -, he, -⟩ := h.exists_element
  have hget : e.children[visited.length]? = some id := by
    rw [← Document.children_of_element? he, ← hafter]
    simp
  have hwrite := writeText_found h.frames he hget hc value
  rw [Document.setContent_eq_self hc] at hwrite
  rw [hwrite, List.length_append]
  rfl

theorem skips_again (h : t.Stands p visited below) :
    t.skipRest = t.reframed (⟨p, (t.document.children p).length⟩ :: below) := by
  rw [skipRest, skipTo, h.frames]
  rfl

theorem runs_of_settled {plan : Plan} (h : t.Stands p visited below)
    (hids : visited ++ ids <+: t.document.children p) (hs : t.document.Settled t.rule plan ids) :
    plan.Runs t ((t.setDocument
      (t.document.updateElement p (Element.assignAll plan.assigned))).reframed
        (⟨p, (visited ++ ids).length⟩ :: below)) := by
  -- On the plan; `visited` is what it has gone over so far, and `ids` comes next in the list.
  induction plan generalizing t p visited ids below with
  | done =>
    cases hs
    obtain ⟨e, -, he, -⟩ := h.exists_element
    rw [Plan.assigned, Element.assignAll_nil, Document.updateElement_eq_self he rfl,
      List.append_nil]
    have hstay : (t.setDocument t.document).reframed (⟨p, visited.length⟩ :: below) = t :=
      h.reframed_eq_self
    rw [hstay]
    exact .done
  | assign assignment next ih =>
    cases hs with
    | assign hrest =>
      obtain ⟨t₁, hassign, hadvances⟩ := h.assigns assignment
      have hchange := changeCurrent_eq h.sound h.frames (Element.assign assignment)
      rw [hchange] at hassign
      cases hassign
      have hstands := hadvances.stands
      rw [List.append_nil] at hstands
      have hkeeps : t.document.KeepsBelow ids
          (t.document.updateElement p (Element.assign assignment)) := fun c hc n hn =>
        Document.node?_updateElement_ne _ (Drawn.ne_of_below_child h.sound.tree
          (hids.subset (List.mem_append_right visited hc)) hn)
      rw [← Document.children_updateElement t.document p p (Element.children_assign assignment)]
        at hids
      have hruns := ih hstands hids (hrest.congr hkeeps)
      rw [document_setDocument, Document.updateElement_updateElement, ← Element.assignAll_cons]
        at hruns
      exact .assign hchange hruns
  | text value next ih =>
    cases hs with
    | @text _ _ id ids hc hrest =>
      rw [List.append_cons] at hids ⊢
      have hid := (List.prefix_append (visited ++ [id]) ids).trans hids
      exact .text (h.writes_again hid hc) (ih (h.visit hid) hids hrest)
  | blob key markup next ih =>
    cases hs with
    | @blob _ _ _ id ids e he haccepts hblob hrest =>
      rw [List.append_cons] at hids ⊢
      have hid := (List.prefix_append (visited ++ [id]) ids).trans hids
      obtain ⟨hopen, hstands⟩ := h.opens_again hid he haccepts
      have hclose := (hstands.visit List.prefix_rfl).closes_again
      rw [← hstands.skips_again] at hclose
      exact .blob hopen (writeBlob_eq_self he hblob) hclose (ih (h.visit hid) hids hrest)
  | element name key inner next ihinner ih =>
    cases hs with
    | @element _ _ _ _ id ids e he haccepts hassigned hinner hrest =>
      rw [List.append_cons] at hids ⊢
      have hid := (List.prefix_append (visited ++ [id]) ids).trans hids
      obtain ⟨hopen, hstands⟩ := h.opens_again hid he haccepts
      have hall : e.children = t.document.children id := (Document.children_of_element? he).symm
      rw [hall] at hinner
      have hruns := ihinner hstands
        (show [] ++ t.document.children id <+: t.document.children id from List.prefix_rfl) hinner
      have hsame : t.document.updateElement id (Element.assignAll inner.assigned) = t.document :=
        Document.updateElement_eq_self he hassigned
      have hinner : inner.Runs (t.reframed (⟨id, 0⟩ :: ⟨p, (visited ++ [id]).length⟩ :: below))
          (t.reframed (⟨id, (t.document.children id).length⟩ ::
            ⟨p, (visited ++ [id]).length⟩ :: below)) := by
        simp only [reframed, setDocument, List.nil_append] at hruns ⊢
        rwa [hsame] at hruns
      exact .element hopen hinner (hstands.visit List.prefix_rfl).closes_again
        (ih (h.visit hid) hids hrest)

end Stands

theorem endPatch_visited (htree : t.document.IsTree) (hframes : t.frames = [])
    (hmode : t.mode = .inner) (he : t.document.element? root = some e) :
    ((t.begun root t.rule).reframed [⟨root, e.children.length⟩]).endPatch = .ok t := by
  have hroot : (t.document.element? root).isSome := by
    rw [he]
    rfl
  have hchildren : e.children <+: t.document.children root := by
    simp [Document.children_of_element? he]
  have hstands := (stands_begun htree hroot t.rule).visit hchildren
  have hpruned : pruned t.document ⟨root, e.children.length⟩ = t.document :=
    pruned_eq_self he (Nat.le_refl _)
  refine (endPatch_eq hstands.sound rfl rfl).trans ?_
  simp only [begun, reframed, setDocument, hpruned, ← hframes, ← hmode]

/-- Between two passes, following the plan of a settled element gives back the target. -/
theorem SettledAt.runs_again {plan : Plan} (h : t.SettledAt root plan) :
    ∃ t₁, plan.Runs (t.begun root t.rule) t₁ ∧ t₁.endPatch = .ok t := by
  obtain ⟨e, he, hassigned, hsettled⟩ := h.element
  have hroot : (t.document.element? root).isSome := by
    rw [he]
    rfl
  have hstands := stands_begun h.tree hroot t.rule
  have hchildren : e.children <+: t.document.children root := by
    simp [Document.children_of_element? he]
  have hsame : t.document.updateElement root (Element.assignAll plan.assigned) = t.document :=
    Document.updateElement_eq_self he hassigned
  have hruns : plan.Runs (t.begun root t.rule)
      ((t.begun root t.rule).reframed [⟨root, e.children.length⟩]) := by
    have hruns := hstands.runs_of_settled (show [] ++ e.children <+: _ from hchildren) hsettled
    simp only [begun, reframed, setDocument, List.nil_append] at hruns ⊢
    rwa [hsame] at hruns
  exact ⟨_, hruns, endPatch_visited h.tree h.frames h.mode he⟩

end KeyedRender.KeyedDom

import KeyedRender.Proofs.Document.Editing

/-!
# Recorded markup

An element can have raw markup, and its record tells which markup was last written into it. Most
changes of a document leave both alone. Where they are written together, what is recorded of an
element stays its raw markup.
-/
namespace KeyedRender.Document

def raw? (d : Document) (id : NodeId) : Option String := (d.element? id).bind Element.raw

/-- What is recorded of a node, if it is an element, is its raw markup, or both are absent. -/
def Recorded (id : NodeId) (d : Document) : Prop := d.HoldsAt id fun e => e.record.blob = e.raw

structure KeepsMarkup (d d' : Document) : Prop where
  size : d.size ≤ d'.size
  element : ∀ {id e'}, d'.element? id = some e' →
    (d.size ≤ id ∧ e'.record.blob = none ∧ e'.raw = none) ∨
      ∃ e, d.element? id = some e ∧ e'.record.blob = e.record.blob ∧ e'.raw = e.raw

variable {d d' d'' : Document} {id : NodeId}

theorem recorded_single (id : NodeId) (name : String) : (single name).Recorded id :=
  holdsAt_single (fun _ _ => rfl) name

namespace KeepsMarkup

theorem of_element? (hsize : d.size ≤ d'.size)
    (h : ∀ id e, d'.element? id = some e → d.element? id = some e) : d.KeepsMarkup d' :=
  ⟨hsize, fun he => .inr ⟨_, h _ _ he, rfl, rfl⟩⟩

theorem refl (d : Document) : d.KeepsMarkup d := of_element? (Nat.le_refl _) fun _ _ he => he

theorem trans (h : d.KeepsMarkup d') (h' : d'.KeepsMarkup d'') : d.KeepsMarkup d'' where
  size := Nat.le_trans h.size h'.size
  element {id e''} he'' := by
    rcases h'.element he'' with ⟨hnew, hempty⟩ | ⟨e', he', hblob', hraw'⟩
    · exact .inl ⟨Nat.le_trans h.size hnew, hempty⟩
    rcases h.element he' with ⟨hnew, hblob, hraw⟩ | ⟨e, he, hblob, hraw⟩
    · exact .inl ⟨hnew, hblob'.trans hblob, hraw'.trans hraw⟩
    · exact .inr ⟨e, he, hblob'.trans hblob, hraw'.trans hraw⟩

theorem updateElement (d : Document) (id : NodeId) {change : Element → Element}
    (hblob : ∀ e, (change e).record.blob = e.record.blob) (hraw : ∀ e, (change e).raw = e.raw) :
    d.KeepsMarkup (d.updateElement id change) := by
  refine ⟨Nat.le_of_eq (size_updateElement ..).symm, fun {other e'} he' => .inr ?_⟩
  rw [element?_updateElement] at he'
  split at he'
  · next hid =>
    obtain ⟨e, he, rfl⟩ := Option.map_eq_some_iff.1 he'
    exact ⟨e, hid ▸ he, hblob e, hraw e⟩
  · exact ⟨e', he', rfl, rfl⟩

theorem updateRecord (d : Document) (id : NodeId) {change : NodeRecord → NodeRecord}
    (h : ∀ r, (change r).blob = r.blob) : d.KeepsMarkup (d.updateRecord id change) :=
  updateElement d id (fun e => h e.record) fun _ => rfl

theorem setContent {id : NodeId} {content : Content} (hnew : ∀ e, content ≠ .element e) :
    d.KeepsMarkup (d.setContent id content) := by
  refine of_element? (Nat.le_of_eq (size_setContent ..).symm) fun other e he => ?_
  by_cases hid : other = id
  · rw [element?_eq_some_iff, content?, node?_setContent, if_pos hid] at he
    cases hn : d.node? id with
    | none => simp [hn] at he
    | some n => exact absurd (by simpa [hn] using he) (hnew e)
  · rwa [element?_setContent_ne hid] at he

theorem reshaping : Reshaping KeepsMarkup where
  refl := refl
  trans := trans
  setChildren d id _ := updateElement d id (fun _ => rfl) fun _ => rfl
  updateElement d id _ hrecord hraw :=
    updateElement d id (fun e => congrArg NodeRecord.blob (hrecord e)) hraw
  setText _ _ := setContent (by simp)
  add d parent content hc := by
    refine ⟨by simp, fun {id e'} he' => ?_⟩
    by_cases hid : id = d.size
    · rw [element?_eq_some_iff, content?, node?_add, if_pos hid] at he'
      have hnew := hc e' (Option.some.inj he')
      exact .inl ⟨Nat.le_of_eq hid.symm, by rw [hnew]; rfl, by rw [hnew]; rfl⟩
    · rw [element?_add d parent content hid] at he'
      exact .inr ⟨e', he', rfl, rfl⟩
  erase d id := by
    refine of_element? (Nat.le_of_eq (size_erase ..).symm) fun other e he => ?_
    rw [element?_eq_some_iff, content?, node?_erase] at he
    split at he
    · cases he
    · exact element?_eq_some_iff.2 he

theorem setComment (d : Document) (id : NodeId) (value : String) :
    d.KeepsMarkup (d.setComment id value) := by
  unfold Document.setComment
  split
  · exact setContent (by simp)
  · exact refl d

theorem recorded (h : d.KeepsMarkup d') (hd : d.Recorded id) : d'.Recorded id := by
  intro e' he'
  rcases h.element he' with ⟨-, hblob, hraw⟩ | ⟨e, he, hblob, hraw⟩
  · rw [hblob, hraw]
  · rw [hblob, hraw, hd e he]

theorem raw?_eq (h : d.KeepsMarkup d') (hid : (d'.element? id).isSome) :
    d'.raw? id = d.raw? id := by
  obtain ⟨e', he'⟩ := Option.isSome_iff_exists.1 hid
  rcases h.element he' with ⟨hnew, -, hraw⟩ | ⟨e, he, -, hraw⟩
  · rw [raw?, raw?, he', element?, content?, node?_of_size_le hnew]
    exact hraw
  · rw [raw?, raw?, he', he]
    exact hraw

end KeepsMarkup

def writeMarkup (d : Document) (id : NodeId) (markup : String) : Document :=
  (d.updateElement id fun e => { e with raw := some markup }).updateRecord id fun r =>
    { r with blob := some markup }

theorem element?_writeMarkup (d : Document) (id other : NodeId) (markup : String) :
    (d.writeMarkup id markup).element? other = if other = id then (d.element? id).map fun e =>
      { e with raw := some markup, record := { e.record with blob := some markup } }
    else d.element? other := by
  rw [writeMarkup, updateRecord, element?_updateElement, element?_updateElement,
    element?_updateElement]
  split
  · rw [if_pos rfl, Option.map_map]
    rfl
  · rfl

theorem Recorded.writeMarkup (h : d.Recorded id) (node : NodeId) (markup : String) :
    (d.writeMarkup node markup).Recorded id := by
  intro e he
  rw [element?_writeMarkup] at he
  split at he
  · obtain ⟨_, -, rfl⟩ := Option.map_eq_some_iff.1 he
    rfl
  · exact h e he

end KeyedRender.Document

import KeyedRender.Proofs.Document.Editing

/-!
# What is recorded of nodes

The calls of a target change a document, but not what is recorded of its nodes: a node that is
still there has the record that it had, and a new one has an empty record. Parts of a record can
be followed by themselves.
-/
namespace KeyedRender

def Content.record? : Content → Option NodeRecord
  | .element e => some e.record
  | _ => none

namespace Document

variable {β : Type} {f : NodeRecord → β} {d d' d'' : Document}

structure Keeps (f : NodeRecord → β) (d d' : Document) : Prop where
  size : d.size ≤ d'.size
  content : ∀ {id c'}, d'.content? id = some c' →
    (d.size ≤ id ∧ ∀ r, c'.record? = some r → f r = f .empty) ∨
    ∃ c, d.content? id = some c ∧ c.record?.map f = c'.record?.map f

namespace Keeps

theorem refl (d : Document) : d.Keeps f d :=
  ⟨Nat.le_refl _, fun hc => .inr ⟨_, hc, rfl⟩⟩

theorem trans (h : d.Keeps f d') (h' : d'.Keeps f d'') : d.Keeps f d'' where
  size := Nat.le_trans h.size h'.size
  content {id c''} hc'' := by
    rcases h'.content hc'' with ⟨hnew, hempty⟩ | ⟨c', hc', heq'⟩
    · exact .inl ⟨Nat.le_trans h.size hnew, hempty⟩
    rcases h.content hc' with ⟨hnew, hempty⟩ | ⟨c, hc, heq⟩
    · refine .inl ⟨hnew, fun r'' hr'' => ?_⟩
      rw [hr''] at heq'
      obtain ⟨r', hr', hf⟩ := Option.map_eq_some_iff.1 heq'
      exact hf ▸ hempty r' hr'
    · exact .inr ⟨c, hc, heq.trans heq'⟩

theorem updateElement (d : Document) (id : NodeId) {change : Element → Element}
    (h : ∀ e, f (change e).record = f e.record) : d.Keeps f (d.updateElement id change) := by
  refine ⟨Nat.le_of_eq (size_updateElement ..).symm, fun {other c'} hc' => .inr ?_⟩
  rw [content?_updateElement] at hc'
  split at hc'
  · next hid =>
    subst hid
    split at hc'
    · next e he =>
      cases hc'
      exact ⟨_, he, congrArg some (h e).symm⟩
    · exact ⟨_, hc', rfl⟩
  · exact ⟨_, hc', rfl⟩

theorem setChildren (d : Document) (id : NodeId) (l : List NodeId) :
    d.Keeps f (d.setChildren id l) := updateElement d id fun _ => rfl

theorem updateRecord (d : Document) (id : NodeId) {change : NodeRecord → NodeRecord}
    (h : ∀ r, f (change r) = f r) : d.Keeps f (d.updateRecord id change) :=
  updateElement d id fun e => h e.record

theorem setContent {id : NodeId} {content : Content}
    (hold : ∀ e, d.content? id ≠ some (.element e)) (hnew : ∀ e, content ≠ .element e) :
    d.Keeps f (d.setContent id content) := by
  have none_of : ∀ {c : Content}, (∀ e, c ≠ .element e) → c.record? = none := fun {c} hc => by
    cases c with
    | element e => exact absurd rfl (hc e)
    | _ => rfl
  refine ⟨Nat.le_of_eq (size_setContent ..).symm, fun {other c'} hc' => .inr ?_⟩
  by_cases hid : other = id
  · subst hid
    rw [content?, node?_setContent, if_pos rfl] at hc'
    cases hn : d.node? other with
    | none =>
      rw [hn] at hc'
      cases hc'
    | some n =>
      rw [hn] at hc'
      cases hc'
      have hc : d.content? other = some n.content := by rw [content?, hn]; rfl
      refine ⟨_, hc, ?_⟩
      rw [none_of hnew, none_of fun e he => hold e (he ▸ hc)]
  · rw [content?, node?_setContent, if_neg hid, ← content?] at hc'
    exact ⟨_, hc', rfl⟩

theorem setComment (d : Document) (id : NodeId) (value : String) :
    d.Keeps f (d.setComment id value) := by
  unfold Document.setComment
  split
  · next hid =>
    refine setContent (fun e he => ?_) (by simp)
    simp [isComment, he] at hid
  · exact refl d

theorem add (d : Document) (parent : Option NodeId) {content : Content}
    (h : ∀ e, content = .element e → e.record = .empty) :
    d.Keeps f (d.add parent content).2 := by
  refine ⟨by simp, fun {id c'} hc' => ?_⟩
  rw [content?, node?_add] at hc'
  split at hc'
  · next hid =>
    cases hc'
    refine .inl ⟨Nat.le_of_eq hid.symm, fun r hr => ?_⟩
    cases content with
    | element e =>
      cases hr
      rw [h e rfl]
    | _ => cases hr
  · exact .inr ⟨c', hc', rfl⟩

theorem erase (d : Document) (id : NodeId) : d.Keeps f (d.erase id) := by
  refine ⟨Nat.le_of_eq (size_erase ..).symm, fun {other c'} hc' => .inr ⟨c', ?_, rfl⟩⟩
  rw [content?, node?_erase] at hc'
  split at hc'
  · cases hc'
  · exact hc'

theorem editing : Editing (Keeps f) where
  refl := refl
  trans := trans
  updateElement d id _ h := updateElement d id fun e => congrArg f (h e)
  setText value h := setContent (by simp [h]) (by simp)
  add := add
  erase := erase

end Keeps

end Document

end KeyedRender

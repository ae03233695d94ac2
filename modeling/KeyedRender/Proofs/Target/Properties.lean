import KeyedRender.Proofs.Document.Properties
import KeyedRender.Proofs.Script.Path
import KeyedRender.Proofs.Target.Blobs

/-!
# Calls that keep properties mirrored

An attribute that a property comes with is set by two calls, and an element mirrors its attributes
again after both. Static attributes are set by one call that leaves the properties alone. The other
calls change neither attributes nor properties.
-/
namespace KeyedRender

def givesProperty (name : String) (attributes : List (String × String)) : Bool :=
  attributes.any fun a => a.1 == name && (propertyOf? a.1 a.2).isSome

namespace KeyedDom

variable {t t' : KeyedDom} {id node : NodeId} {name markup : String} {answer : Option NodeId}
  {change : Element → Element} {attributes : List (String × String)} {e : Element}

theorem changeCurrent_cases (h : t.changeCurrent change = .ok t') :
    (t.current? = none ∧ t' = t) ∨ ∃ node, t.current? = some node ∧
      t' = t.setDocument (t.document.updateElement node change) := by
  unfold changeCurrent at h
  split at h
  · next hf =>
    cases h
    exact .inl ⟨by rw [current?, hf]; rfl, rfl⟩
  · next f below hf =>
    cases hn : t.liveNode f.parent with
    | error fault =>
      rw [hn] at h
      cases h
    | ok n =>
      rw [hn] at h
      cases h
      exact .inr ⟨f.parent, by rw [current?, hf]; rfl, rfl⟩

theorem current?_changeCurrent (h : t.changeCurrent change = .ok t') :
    t'.current? = t.current? := by
  rcases changeCurrent_cases h with ⟨-, rfl⟩ | ⟨_, -, rfl⟩ <;> rfl

theorem holdsAt_changeCurrent {P : Element → Prop} (h : t.changeCurrent change = .ok t')
    (ht : t.document.HoldsAt id P) (hc : t.current? = some id → ∀ e, P e → P (change e)) :
    t'.document.HoldsAt id P := by
  rcases changeCurrent_cases h with ⟨-, rfl⟩ | ⟨node, hnode, rfl⟩
  · exact ht
  · exact ht.updateElement fun hid => hc (hid ▸ hnode)

theorem setAttributes_cons {a : String × String} {rest : List (String × String)}
    (h : t.setAttributes (a :: rest) = .ok t') : ∃ t₁,
      t.changeCurrent (.setAttribute a.1 a.2) = .ok t₁ ∧ t₁.setAttributes rest = .ok t' := by
  change t.changeCurrent (.setAttribute a.1 a.2) >>= (setAttributes · rest) = .ok t' at h
  cases hfirst : t.changeCurrent (.setAttribute a.1 a.2) with
  | error fault =>
    rw [hfirst] at h
    cases h
  | ok t₁ =>
    rw [hfirst] at h
    exact ⟨t₁, rfl, h⟩

theorem mirrors_setAttributes (h : t.setAttributes attributes = .ok t')
    (ht : t.document.Mirrors name id)
    (hfree : t.current? = some id → givesProperty name attributes = false) :
    t'.document.Mirrors name id := by
  induction attributes generalizing t with
  | nil =>
    cases h
    exact ht
  | cons a rest ih =>
    obtain ⟨t₁, hfirst, hrest⟩ := setAttributes_cons h
    simp only [givesProperty, List.any_cons, Bool.or_eq_false_iff] at hfree
    refine ih hrest (holdsAt_changeCurrent hfirst ht fun hcurrent e he => ?_) fun hcurrent =>
      (hfree (current?_changeCurrent hfirst ▸ hcurrent)).2
    refine he.setAttribute a.2 fun hname => ?_
    simpa [hname] using (hfree hcurrent).1

theorem element?_setAttributes (h : t.setAttributes attributes = .ok t')
    (hcurrent : t.current? = some id) (he : t.document.element? id = some e) :
    t'.document.element? id =
      some { e with attributes := assignEach attributes e.attributes } := by
  induction attributes generalizing t e with
  | nil =>
    cases h
    exact he
  | cons a rest ih =>
    obtain ⟨t₁, hfirst, hrest⟩ := setAttributes_cons h
    have he₁ : t₁.document.element? id = some (e.setAttribute a.1 a.2) := by
      rcases changeCurrent_cases hfirst with ⟨hnone, -⟩ | ⟨node, hnode, rfl⟩
      · exact absurd (hnone.symm.trans hcurrent) (by simp)
      · obtain rfl := Option.some.inj (hnode.symm.trans hcurrent)
        rw [document_setDocument, Document.element?_updateElement, if_pos rfl, he]
        rfl
    exact ih hrest ((current?_changeCurrent hfirst).trans hcurrent) he₁

theorem not_mirrors_applyStatics (h : apply (.applyStatics attributes) t = .ok (answer, t'))
    (hcurrent : t.current? = some id) (he : t.document.element? id = some e)
    (hproperty : e.properties.lookup name = none)
    (hgives : givesProperty name attributes = true) : ¬ t'.document.Mirrors name id := by
  obtain ⟨a, ha, hname⟩ := List.any_eq_true.1 hgives
  simp only [Bool.and_eq_true, beq_iff_eq] at hname
  obtain ⟨rfl, hsome⟩ := hname
  obtain ⟨_, hset, ⟨⟩⟩ := exists_ok_of_map h
  intro hmirrors
  have hlookup : Element.Mirrors _ _ := hmirrors _ (element?_setAttributes hset hcurrent he)
  obtain ⟨value, hvalue⟩ := Option.isSome_iff_exists.1
    (isSome_lookup_assignEach_of_mem (List.mem_map_of_mem ha) e.attributes)
  rw [Element.Mirrors, hproperty, hvalue] at hlookup
  have hnone : propertyOf? a.1 value = none := Option.map_eq_none_iff.1 hlookup.symm
  rw [propertyOf?_eq_none hnone] at hsome
  cases hsome

theorem mirrors_setBoth {other value : String} {property : PropertyValue} {t₁ : KeyedDom}
    {answer' : Option NodeId} (hattribute : apply (.setAttribute other value) t = .ok (answer, t₁))
    (hproperty : apply (.setProperty other property) t₁ = .ok (answer', t'))
    (hgives : propertyOf? other value = some property) (ht : t.document.Mirrors name id) :
    t'.document.Mirrors name id := by
  obtain ⟨_, hset, ⟨⟩⟩ := exists_ok_of_map hattribute
  obtain ⟨_, hattribute, ⟨⟩⟩ := setAttributes_cons hset
  obtain ⟨_, hproperty, ⟨⟩⟩ := exists_ok_of_map hproperty
  rcases changeCurrent_cases hattribute with ⟨hnone, rfl⟩ | ⟨node, hnode, rfl⟩
  · exact holdsAt_changeCurrent hproperty ht fun hcurrent =>
      absurd (hnone.symm.trans hcurrent) (by simp)
  · rcases changeCurrent_cases hproperty with ⟨hnone, -⟩ | ⟨node', hnode', rfl⟩
    · exact absurd (hnone.symm.trans hnode) (by simp)
    · obtain rfl := Option.some.inj (hnode'.symm.trans hnode)
      have hboth : Document.Mirrors name id (t.document.updateElement node'
          (Element.setProperty other property.toText ∘ Element.setAttribute other value)) :=
        Document.HoldsAt.updateElement ht fun _ e he => he.setBoth hgives
      rwa [← Document.updateElement_updateElement] at hboth

theorem mirrors_pruned (ht : t.document.Mirrors name id) (f : Frame) :
    (pruned t.document f).Mirrors name id :=
  (Document.restructuring_mirrors name id).prune _ _ _ _ ht

theorem mirrors_setInnerMarkup (h : t.setInnerMarkup node markup = .ok t')
    (ht : t.document.Mirrors name id) : t'.document.Mirrors name id := by
  obtain rfl := setInnerMarkup_ok h
  exact (mirrors_pruned ht _).updateElement fun _ _ he => he

theorem mirrors_writeBlob (h : t.writeBlob node markup = .ok t')
    (ht : t.document.Mirrors name id) : t'.document.Mirrors name id := by
  rcases writeBlob_cases h with ⟨-, rfl⟩ | ⟨-, rfl⟩
  · exact ht
  · have hraw : Document.Mirrors name id ((pruned t.document ⟨node, 0⟩).updateElement node fun e =>
        { e with raw := some markup }) := (mirrors_pruned ht _).updateElement fun _ _ he => he
    have hrecord : Document.Mirrors name id
        ((pruned t.document ⟨node, 0⟩).writeMarkup node markup) :=
      Document.HoldsAt.updateElement hraw fun _ _ he => he
    exact hrecord

theorem mirrors_apply {call : TargetCall} (hc : call.IsSingle)
    (h : apply call t = .ok (answer, t')) (ht : t.document.Mirrors name id) :
    t'.document.Mirrors name id := by
  by_cases hrestructures : call.Restructures
  · have hedited := edited_apply_of_restructures (Document.restructuring_mirrors name id) call
      hrestructures t fun node value _ ht => ht.setComment node value
    rw [h] at hedited
    exact hedited ht
  · cases call with
    | setAttribute other value =>
      obtain ⟨_, hset, ⟨⟩⟩ := exists_ok_of_map h
      refine mirrors_setAttributes hset ht fun _ => ?_
      simp [givesProperty, propertyOf?, hc.1, hc.2]
    | setProperty => exact hc.elim
    | applyStatics => exact hc.elim
    | setInnerMarkup => exact hc.elim
    | _ => exact absurd trivial hrestructures

end KeyedDom

end KeyedRender

import KeyedRender.Proofs.Document.Drawing
import KeyedRender.Proofs.Document.Editing

/-!
# Properties of elements

Some attributes come with a property: whether the element is checked, or its value. An element
mirrors a name if it has the property that its attribute of this name comes with. That has nothing
to do with its children, so it stays true while the tree around it changes.
-/
namespace KeyedRender

/-- The property that an attribute comes with. -/
def propertyOf? (name value : String) : Option PropertyValue :=
  if name = "checked" then some (.flag (value ≠ "false"))
  else if name = "value" then some (.text value)
  else none

theorem propertyOf?_eq_none {name value : String} (h : propertyOf? name value = none)
    (other : String) : propertyOf? name other = none := by
  unfold propertyOf? at h ⊢
  grind

namespace Element

/-- The property of a name is what the attribute of this name comes with. -/
def Mirrors (name : String) (e : Element) : Prop :=
  e.properties.lookup name =
    (e.attributes.lookup name).bind fun value => (propertyOf? name value).map PropertyValue.toText

instance (name : String) (e : Element) : Decidable (e.Mirrors name) :=
  inferInstanceAs (Decidable (_ = _))

variable {name other value : String} {e : Element}

theorem mirrors_new (name own key : String) : (Element.new own key).Mirrors name := rfl

theorem mirrors_value : e.Mirrors "value" ↔
    e.properties.lookup "value" = e.attributes.lookup "value" := by
  unfold Mirrors
  cases e.attributes.lookup "value" <;> rfl

theorem mirrors_checked : e.Mirrors "checked" ↔ e.properties.lookup "checked" =
    (e.attributes.lookup "checked").map fun mark => if mark = "false" then "false" else "true" := by
  unfold Mirrors
  cases e.attributes.lookup "checked" with
  | none => rfl
  | some mark => by_cases hmark : mark = "false" <;> simp [propertyOf?, hmark, PropertyValue.toText]

theorem Mirrors.setAttribute (h : e.Mirrors name) (value : String)
    (hnone : other = name → propertyOf? other value = none) :
    (e.setAttribute other value).Mirrors name := by
  unfold Mirrors Element.setAttribute
  rw [lookup_assign, h]
  split
  · next hname =>
    subst hname
    have hall := propertyOf?_eq_none (hnone rfl)
    simp [hall]
  · rfl

theorem Mirrors.setBoth (h : e.Mirrors name) {property : PropertyValue}
    (hproperty : propertyOf? other value = some property) :
    ((e.setAttribute other value).setProperty other property.toText).Mirrors name := by
  unfold Mirrors Element.setAttribute Element.setProperty
  simp only [lookup_assign]
  split
  · next hname =>
    subst hname
    simp [hproperty]
  · exact h

end Element

namespace Document

/-- A node, if it is an element, mirrors a name. -/
def Mirrors (name : String) (id : NodeId) (d : Document) : Prop := d.HoldsAt id (·.Mirrors name)

theorem restructuring_mirrors (name : String) (id : NodeId) :
    Restructuring fun d d' => d.Mirrors name id → d'.Mirrors name id :=
  restructuring_holdsAt (Element.mirrors_new name) fun _ _ h => h

end Document

end KeyedRender

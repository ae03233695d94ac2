import KeyedRender.Proofs.Document.Spelling
import KeyedRender.Proofs.Markup.Escaping
import KeyedRender.Proofs.Markup.Spellings

/-!
# Attributes read back from markup

An escaped value has no double quote, so a start tag spells its attributes with a blank in front of
each and the values in double quotes. They are split where they were put together.
-/
namespace KeyedRender.Markup

theorem isBlanks_nil : [] ⊆ ['\t', '\n', '\x0c', '\r', ' '] := List.nil_subset _

theorem isBlanks_space : [' '] ⊆ ['\t', '\n', '\x0c', '\r', ' '] := by simp

def quotedSpelling (a : String × String) (h : IsAttributeName a.1) : Blanks × AttributeSpelling :=
  (⟨[' '], isBlanks_space⟩, ⟨a.1, h, some ⟨⟨[], isBlanks_nil⟩, ⟨[], isBlanks_nil⟩,
    .double (escape .value a.2.toList) (quote_not_mem_escape a.2.toList)⟩⟩)

theorem spelledText_quotedSpelling {attributes : List (String × String)}
    (h : ∀ a ∈ attributes, IsAttributeName a.1) :
    spelledText (attributes.pmap quotedSpelling h) = attributes.flatMap attributeMarkup := by
  induction attributes with
  | nil => rfl
  | cons a attributes ih =>
    have hrest := ih fun b hb => h b (List.mem_cons_of_mem a hb)
    rw [spelledText] at hrest
    rw [List.pmap_cons, spelledText, List.flatMap_cons, hrest, List.flatMap_cons]
    simp [quotedSpelling, AttributeSpelling.text, AttributeSpelling.tail, Assignment.text,
      ValueSpelling.text, attributeMarkup]

theorem splitAttributes_attributesMarkup {attributes : List (String × String)}
    (h : ∀ a ∈ attributes, IsAttributeName a.1) :
    splitAttributes (String.ofList (attributes.flatMap attributeMarkup)) = attributes := by
  have hgaps : ∀ item ∈ (attributes.pmap quotedSpelling h).tail, item.1.text ≠ [] := by
    intro item hitem
    obtain ⟨a, ha, rfl⟩ := List.mem_pmap.1 (List.mem_of_mem_tail hitem)
    simp [quotedSpelling]
  have hraw := rawAttributes_spelledText _ ⟨[], isBlanks_nil⟩ hgaps
  rw [spelledText_quotedSpelling, List.append_nil, List.map_pmap] at hraw
  rw [splitAttributes, String.toList_ofList, hraw, List.map_pmap]
  simp [quotedSpelling, AttributeSpelling.value, ValueSpelling.value, unescape_escape]

end KeyedRender.Markup

namespace KeyedRender

open Markup

theorem foldl_assign {held attributes : List (String × String)}
    (h : ((held ++ attributes).map Prod.fst).Nodup) :
    attributes.foldl (fun kept a => assign a.1 a.2 kept) held = held ++ attributes := by
  induction attributes generalizing held with
  | nil => simp
  | cons a attributes ih =>
    have hnew : a.1 ∉ held.map Prod.fst := by
      rw [List.map_append, List.map_cons, List.nodup_append] at h
      exact fun hmem => h.2.2 a.1 hmem a.1 List.mem_cons_self rfl
    rw [List.foldl_cons, assign_of_notMem hnew, ih (by simpa using h)]
    simp

theorem Document.outerMarkup_element {d : Document} {id : NodeId} {e : Element}
    (h : d.element? id = some e) :
    ∃ after, (d.outerMarkup id).toList =
      '<' :: e.name.toList ++ e.attributes.flatMap attributeMarkup ++ '>' :: after := by
  have hcontent := element?_eq_some_iff.1 h
  obtain ⟨fuel, hfuel⟩ := Nat.exists_eq_add_one_of_ne_zero (n := d.size)
    (Nat.ne_zero_of_lt (lt_size_of_content? hcontent))
  rw [outerMarkup, tree?, hfuel, treeWithin, hcontent]
  simp only [Option.map_some, Option.getD_some, String.toList_ofList, Tree.outer, startTag]
  simp

namespace Markup

/-- Attributes read back from the markup of an element on which they were set one after another, if
their names differ and can stand in front of an equals sign: splitting the text between the name of
the element and the end of its start tag gives back every name and value, in order. For the values,
reading undoes escaping, whatever they look like. -/
theorem splitAttributes_outerMarkup {d : Document} {id : NodeId} {e : Element}
    {attributes : List (String × String)} (he : d.element? id = some e)
    (hset : e.attributes = attributes.foldl (fun kept a => assign a.1 a.2 kept) [])
    (hdistinct : (attributes.map Prod.fst).Nodup)
    (hnames : ∀ a ∈ attributes, IsAttributeName a.1) :
    (∀ place text, unescape (escape place text) = text) ∧
      ∃ markup after, (d.outerMarkup id).toList =
          '<' :: e.name.toList ++ markup ++ '>' :: after ∧
        markup = attributes.flatMap attributeMarkup ∧
        splitAttributes (String.ofList markup) = attributes := by
  have hkept : e.attributes = attributes := by
    rw [hset, foldl_assign (by simpa using hdistinct), List.nil_append]
  obtain ⟨after, hafter⟩ := Document.outerMarkup_element he
  rw [hkept] at hafter
  exact ⟨unescape_escape, _, after, hafter, rfl, splitAttributes_attributesMarkup hnames⟩

def quotedAttributes : List (String × String) :=
  [("title", "&amp;lt; & \"so\" it's;"), ("data-x", "\u00a0</p>&#38;"), ("é\"'<", ""),
    ("b", " a=\"1\" ")]

theorem splitAttributes_outerMarkup_quoted :
    ∃ after, (Document.outerMarkup ⟨#[some ⟨none, .element
        { Element.new "p" "" with attributes := quotedAttributes }⟩]⟩ 0).toList =
          "<p".toList ++ quotedAttributes.flatMap attributeMarkup ++ '>' :: after ∧
        splitAttributes (String.ofList (quotedAttributes.flatMap attributeMarkup)) =
          quotedAttributes := by
  have hset : quotedAttributes = quotedAttributes.foldl (fun kept a => assign a.1 a.2 kept) [] := by
    decide
  have helement : Document.element? ⟨#[some ⟨none, .element
      { Element.new "p" "" with attributes := quotedAttributes }⟩]⟩ 0 =
        some { Element.new "p" "" with attributes := quotedAttributes } := rfl
  obtain ⟨-, _, after, hmarkup, rfl, hsplit⟩ :=
    splitAttributes_outerMarkup helement hset (by decide) (by decide)
  exact ⟨after, hmarkup, hsplit⟩

end Markup

end KeyedRender

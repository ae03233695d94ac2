import KeyedRender.Document.Markup
import KeyedRender.Proofs.Document.Idle
import KeyedRender.Proofs.Document.Siblings

/-!
# Documents that spell trees

Nodes spell trees if the document below them is what the trees say. All nodes of a tree come after
a number, and every child comes after its parent, so that later nodes and changes of earlier ones
leave a tree alone. Content is written at an element if its attributes are assigned and new nodes that
spell trees go behind its children.
-/
namespace KeyedRender.Document

open Markup (Tree)

inductive Spells (d : Document) : Nat → List NodeId → List Tree → Prop
  | nil {least : Nat} : Spells d least [] []
  | element {least id : Nat} {e : Element} {ids : List NodeId} {inner trees : List Tree} :
      least ≤ id → d.element? id = some e → Spells d (id + 1) e.children inner →
      Spells d least ids trees →
      Spells d least (id :: ids) (.element e.name e.attributes e.raw inner :: trees)
  | text {least id : Nat} {value : String} {ids : List NodeId} {trees : List Tree} :
      least ≤ id → d.content? id = some (.text value) → Spells d least ids trees →
      Spells d least (id :: ids) (.text value :: trees)
  | comment {least id : Nat} {value : String} {ids : List NodeId} {trees : List Tree} :
      least ≤ id → d.content? id = some (.comment value) → Spells d least ids trees →
      Spells d least (id :: ids) (.comment value :: trees)

theorem element?_congr {d d' : Document} {id : NodeId} (h : d'.node? id = d.node? id) :
    d'.element? id = d.element? id := by
  simp only [element?, content?, h]

theorem content?_congr {d d' : Document} {id : NodeId} (h : d'.node? id = d.node? id) :
    d'.content? id = d.content? id := by
  simp only [content?, h]

theorem lt_size_of_content? {d : Document} {id : Nat} {content : Content}
    (h : d.content? id = some content) : id < d.size := by
  obtain ⟨n, hn, -⟩ := Option.map_eq_some_iff.1 h
  exact lt_size_of_node? hn

namespace Spells

variable {d d' : Document} {least : Nat} {ids more : List NodeId} {trees others : List Tree}

theorem mono (h : d.Spells least ids trees) {other : Nat} (hle : other ≤ least) :
    d.Spells other ids trees := by
  induction h with
  | nil => exact .nil
  | element hid he hinner _ _ ih => exact .element (Nat.le_trans hle hid) he hinner (ih hle)
  | text hid hc _ ih => exact .text (Nat.le_trans hle hid) hc (ih hle)
  | comment hid hc _ ih => exact .comment (Nat.le_trans hle hid) hc (ih hle)

theorem congr (h : d.Spells least ids trees)
    (hsame : ∀ id : Nat, least ≤ id → id < d.size → d'.node? id = d.node? id) :
    d'.Spells least ids trees := by
  induction h with
  | nil => exact .nil
  | @element least id e _ _ _ hid he _ _ hinner ih =>
    have he' : d'.element? id = some e := by
      rw [element?_congr (hsame id hid (lt_size_of_element? he)), he]
    exact .element hid he' (hinner fun other h => hsame other (by omega)) (ih hsame)
  | @text _ id _ _ _ hid hc _ ih =>
    have hnode := hsame id hid (lt_size_of_content? hc)
    exact .text hid ((content?_congr hnode).trans hc) (ih hsame)
  | @comment _ id _ _ _ hid hc _ ih =>
    have hnode := hsame id hid (lt_size_of_content? hc)
    exact .comment hid ((content?_congr hnode).trans hc) (ih hsame)

theorem append (h : d.Spells least ids trees) (h' : d.Spells least more others) :
    d.Spells least (ids ++ more) (trees ++ others) := by
  induction h with
  | nil => exact h'
  | element hid he hinner _ _ ih => exact .element hid he hinner (ih h')
  | text hid hc _ ih => exact .text hid hc (ih h')
  | comment hid hc _ ih => exact .comment hid hc (ih h')

/-- What is read off the document is the tree: children come after their parents, so that the
nodes after a parent are fuel enough. -/
theorem filterMap_treeWithin (h : d.Spells least ids trees) {fuel : Nat}
    (hfuel : d.size ≤ fuel + least) : ids.filterMap (d.treeWithin fuel) = trees := by
  induction h generalizing fuel with
  | nil => rfl
  | @element least id e ids inner trees hid he _ _ hinner ih =>
    have hlt := lt_size_of_element? he
    obtain ⟨fuel, rfl⟩ : ∃ n, fuel = n + 1 := ⟨fuel - 1, by omega⟩
    have hread : e.children.filterMap (d.treeWithin fuel) = inner := hinner (by omega)
    have htree : d.treeWithin (fuel + 1) id =
        some (.element e.name e.attributes e.raw inner) := by
      rw [treeWithin, element?_eq_some_iff.1 he]
      simp only [hread]
    rw [List.filterMap_cons_some htree, ih hfuel]
  | @text least id value ids trees hid hc _ ih =>
    have hlt := lt_size_of_content? hc
    obtain ⟨fuel, rfl⟩ : ∃ n, fuel = n + 1 := ⟨fuel - 1, by omega⟩
    have htree : d.treeWithin (fuel + 1) id = some (.text value) := by rw [treeWithin, hc]
    rw [List.filterMap_cons_some htree, ih hfuel]
  | @comment least id value ids trees hid hc _ ih =>
    have hlt := lt_size_of_content? hc
    obtain ⟨fuel, rfl⟩ : ∃ n, fuel = n + 1 := ⟨fuel - 1, by omega⟩
    have htree : d.treeWithin (fuel + 1) id = some (.comment value) := by rw [treeWithin, hc]
    rw [List.filterMap_cons_some htree, ih hfuel]

theorem single_element {name : String} {attributes : List (String × String)} {raw : Option String}
    {inner : List Tree} (h : d.Spells least ids [.element name attributes raw inner]) :
    ∃ id e, ids = [id] ∧ d.element? id = some e ∧ e.attributes = attributes := by
  generalize htrees : [Tree.element name attributes raw inner] = trees at h
  cases h with
  | nil => cases htrees
  | text _ _ _ => cases htrees
  | comment _ _ _ => cases htrees
  | @element _ id e _ _ _ _ he _ hrest =>
    cases htrees
    cases hrest
    exact ⟨id, e, rfl, he, rfl⟩

end Spells

structure Writes (d : Document) (p : NodeId) (settings : List (String × String))
    (trees : List Tree) (d' : Document) : Prop where
  size : d.size ≤ d'.size
  tree : d'.IsTree
  parent : d'.parent? p = d.parent? p
  others : ∀ id : Nat, id < d.size → id ≠ p → d'.node? id = d.node? id
  written : ∀ e, d.element? p = some e → ∃ ids, d'.element? p =
    some { e with attributes := assignEach settings e.attributes, children := e.children ++ ids } ∧
      d'.Spells d.size ids trees

structure Tip (d : Document) (p : NodeId) : Prop where
  tree : d.IsTree
  element : ∃ e, d.element? p = some e
  last : d.nextSibling? p = none

variable {d d' d'' : Document} {p : NodeId} {e : Element}

namespace Tip

theorem writes_nil (h : d.Tip p) : d.Writes p [] [] d where
  size := Nat.le_refl _
  tree := h.tree
  parent := rfl
  others _ _ _ := rfl
  written e he := ⟨[], by simpa [assignEach] using he, .nil⟩

end Tip

namespace Writes

variable {settings more : List (String × String)} {trees others : List Tree}

theorem trans (h : d.Writes p settings trees d') (h' : d'.Writes p more others d'') :
    d.Writes p (settings ++ more) (trees ++ others) d'' := by
  refine ⟨Nat.le_trans h.size h'.size, h'.tree, h'.parent.trans h.parent, fun id hid hne => ?_,
    fun e he => ?_⟩
  · rw [h'.others id (Nat.lt_of_lt_of_le hid h.size) hne, h.others id hid hne]
  · obtain ⟨ids, he', hspells⟩ := h.written e he
    obtain ⟨ids', he'', hspells'⟩ := h'.written _ he'
    have hlt := lt_size_of_element? he
    refine ⟨ids ++ ids', ?_, (hspells.congr fun id hid hlt' => ?_).append (hspells'.mono h.size)⟩
    · rw [he'', assignEach_append, List.append_assoc]
    · exact h'.others id hlt' (Nat.ne_of_gt (Nat.lt_of_lt_of_le hlt hid))

theorem tip (h : d.Writes p settings trees d') (hd : d.Tip p) : d'.Tip p := by
  obtain ⟨e, he⟩ := hd.element
  obtain ⟨ids, he', -⟩ := h.written e he
  refine ⟨h.tree, ⟨_, he'⟩, ?_⟩
  have hlast := hd.last
  rw [nextSibling?, h.parent]
  rw [nextSibling?] at hlast
  cases hq : d.parent? p with
  | none => rfl
  | some q =>
    have hlt := hd.tree.older hq
    rw [hq] at hlast
    -- The parent comes before the element, so that nothing was written at it.
    have hnode := h.others q (Nat.lt_trans hlt (lt_size_of_element? he)) (Nat.ne_of_lt hlt)
    simpa only [Option.bind_some, children_eq_of_node? hnode] using hlast

theorem setAttribute (hd : d.Tip p) (name value : String) :
    d.Writes p [(name, value)] [] (d.updateElement p (Element.setAttribute name value)) where
  size := Nat.le_of_eq (size_updateElement ..).symm
  tree := hd.tree.congr (.updateElement d p fun _ => rfl)
  parent := parent?_updateElement ..
  others _ _ hne := node?_updateElement_ne _ hne
  written e he := ⟨[], by simp [element?_updateElement, he, Element.setAttribute, assignEach], .nil⟩

end Writes

section Adopt

variable {content : Content}

theorem element?_adopt_last (he : d.element? p = some e) :
    (d.adopt p e.children.length content).element? p =
      some { e with children := e.children ++ [d.size] } := by
  rw [element?_adopt he, List.insertIdx_length_self]

theorem element?_adopt_new (he : d.element? p = some e) (name : String) :
    (d.adopt p e.children.length (.element (.new name ""))).element? d.size =
      some (.new name "") := by
  simp [element?, content?, node?_adopt_size he]

theorem isTree_adopt_new (hd : d.IsTree) (he : d.element? p = some e) (name : String) :
    (d.adopt p e.children.length (.element (.new name ""))).IsTree := by
  refine hd.adopt he ?_ (Nat.le_refl _)
  rintro _ ⟨⟩
  rfl

theorem Tip.adopt (h : d.Tip p) (he : d.element? p = some e) (name : String) :
    (d.adopt p e.children.length (.element (.new name ""))).Tip d.size := by
  have htree := isTree_adopt_new h.tree he name
  have hchildren : (d.adopt p e.children.length (.element (.new name ""))).children p =
      e.children ++ [d.size] := children_of_element? (element?_adopt_last he)
  refine ⟨htree, ⟨_, element?_adopt_new he name⟩, ?_⟩
  rw [htree.nextSibling?_eq (p := p) (i := e.children.length), hchildren]
  · simp
  · simp [hchildren]

theorem Writes.adopt (he : d.element? p = some e) {tree : Tree}
    (hsize : (d.adopt p e.children.length content).size ≤ d'.size) (htree : d'.IsTree)
    (hothers : ∀ id : Nat, id < d.size →
      d'.node? id = (d.adopt p e.children.length content).node? id)
    (hspells : d'.Spells d.size [d.size] [tree]) : d.Writes p [] [tree] d' := by
  have hlt := lt_size_of_element? he
  refine ⟨?_, htree, ?_, fun id hid hne => ?_, fun e' he' => ⟨[d.size], ?_, hspells⟩⟩
  · rw [size_adopt] at hsize
    exact Nat.le_of_succ_le hsize
  · rw [parent?, hothers p hlt]
    exact (parent?_adopt ..).trans (if_neg (Nat.ne_of_lt hlt))
  · rw [hothers id hid, node?_adopt_ne hne (Nat.ne_of_lt hid)]
  · obtain rfl := Option.some.inj (he.symm.trans he')
    rw [element?_congr (hothers p hlt), element?_adopt_last he]
    rfl

theorem Writes.leaf (hd : d.Tip p) (he : d.element? p = some e)
    (hcontent : ∀ e', content ≠ .element e') {tree : Tree}
    (hspells : ∀ d' : Document, d'.content? d.size = some content →
      d'.Spells d.size [d.size] [tree]) :
    d.Writes p [] [tree] (d.adopt p e.children.length content) := by
  refine .adopt he (Nat.le_refl _) ?_ (fun _ _ => rfl) (hspells _ ?_)
  · exact hd.tree.adopt he (fun e' hc => absurd hc (hcontent e')) (Nat.le_refl _)
  · simp [content?, node?_adopt_size he]

theorem Writes.element (he : d.element? p = some e) {name : String}
    {settings : List (String × String)} {inner : List Tree}
    (h : (d.adopt p e.children.length (.element (.new name ""))).Writes d.size settings inner d') :
    d.Writes p [] [.element name (assignEach settings []) none inner] d' := by
  obtain ⟨ids, he', hspells⟩ := h.written _ (element?_adopt_new he name)
  rw [size_adopt] at hspells
  refine .adopt he h.size h.tree (fun id hid => ?_) (.element (Nat.le_refl _) he' ?_ .nil)
  · exact h.others id (by rw [size_adopt]; exact Nat.lt_succ_of_lt hid) (Nat.ne_of_lt hid)
  · exact hspells

theorem Writes.raw (hd : d.Tip p) (he : d.element? p = some e) {name markup : String}
    {change : Element → Element}
    (hchange : ∀ e, (change e).children = e.children ∧ (change e).name = e.name ∧
      (change e).attributes = e.attributes ∧ (change e).raw = some markup) :
    d.Writes p [] [.element name [] (some markup) []]
      ((d.adopt p e.children.length (.element (.new name ""))).updateElement d.size change) := by
  obtain ⟨hchildren, hname, hattributes, hraw⟩ := hchange (.new name "")
  refine .adopt he (Nat.le_of_eq (size_updateElement ..).symm) ?_ (fun id hid => ?_) ?_
  · exact (isTree_adopt_new hd.tree he name).congr (.updateElement _ _ fun e => (hchange e).1)
  · exact node?_updateElement_ne _ (Nat.ne_of_lt hid)
  · have he' : (((d.adopt p e.children.length (.element (.new name ""))).updateElement d.size
        change).element? d.size) = some (change (.new name "")) := by
      rw [element?_updateElement, if_pos rfl, element?_adopt_new he]
      rfl
    have hspells := Spells.element (Nat.le_refl d.size) he'
      (by rw [hchildren]; exact .nil) .nil
    rwa [hname, hattributes, hraw] at hspells

end Adopt

end KeyedRender.Document

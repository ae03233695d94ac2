import KeyedRender.Proofs.Document.Printing
import KeyedRender.Proofs.Document.Walking
import KeyedRender.Proofs.Target.Writing
import Mathlib.Data.List.Chain

/-!
# The table of a markup target

However a markup target is called, its nodes form a tree that is written down in order: every node
but the root is listed once, after its elder siblings, by an element that comes before it. The
open elements lie on one path from the root. So a node is printed in finitely many steps, none
twice, and a child list is walked from its first node to its last.
-/
namespace KeyedRender

namespace Document

variable {d d' : Document}

/-- A tree without gaps, whose child lists are in the order in which nodes were made. -/
structure Compact (d : Document) : Prop where
  tree : d.IsTree
  whole : ∀ id : Nat, id < d.size → d.isLive id = true
  sorted : ∀ p, (d.children p).Pairwise fun a b : Nat => a < b

/-- Elements that are children of each other, from the innermost on. -/
structure Stacked (d : Document) (stack : List NodeId) : Prop where
  elements : ∀ id ∈ stack, (d.element? id).isSome
  chain : stack.IsChain fun inner outer => inner ∈ d.children outer

/-- Elements stay elements, and children stay children. -/
structure Retains (d d' : Document) : Prop where
  elements : ∀ id, (d.element? id).isSome → (d'.element? id).isSome
  children : ∀ p c, c ∈ d.children p → c ∈ d'.children p

theorem compact_single (name : String) : (single name).Compact where
  tree := isTree_single name
  whole id hid := by
    obtain rfl : id = 0 := by simpa [single, size] using hid
    rfl
  sorted p := by rw [children_single]; exact .nil

theorem Compact.congr (h : d.Compact) (hs : SameShape d d') (hsize : d'.size = d.size) :
    d'.Compact where
  tree := h.tree.congr hs
  whole id hid := by rw [hs.live]; exact h.whole id (hsize ▸ hid)
  sorted p := by rw [hs.children]; exact h.sorted p

theorem Retains.updateElement (d : Document) (id : NodeId) {change : Element → Element}
    (h : ∀ e, (change e).children = e.children) : d.Retains (d.updateElement id change) where
  elements other := by
    rw [element?_updateElement]
    split
    · next hother => subst hother; simp
    · exact fun h => h
  children p c hc := by rwa [children_updateElement _ _ _ h]

theorem Retains.setComment (d : Document) (id : NodeId) (value : String) :
    d.Retains (d.setComment id value) where
  elements other h := by rwa [element?_setComment]
  children p c hc := by rwa [(SameShape.setComment d id value).children]

namespace Stacked

variable {stack : List NodeId} {id top : NodeId}

theorem mono (h : d.Stacked stack) (hd : d.Retains d') : d'.Stacked stack where
  elements id hid := hd.elements id (h.elements id hid)
  chain := h.chain.imp fun _ _ hc => hd.children _ _ hc

theorem suffix (h : d.Stacked stack) {inner : List NodeId} (hs : inner <:+ stack) :
    d.Stacked inner where
  elements id hid := h.elements id (hs.subset hid)
  chain := h.chain.suffix hs

theorem push (h : d.Stacked (top :: stack)) (hid : (d.element? id).isSome)
    (hmem : id ∈ d.children top) : d.Stacked (id :: top :: stack) where
  elements := List.forall_mem_cons.2 ⟨hid, h.elements⟩
  chain := .cons_cons hmem h.chain

end Stacked

section Adopt

variable {p : NodeId} {e : Element} {content : Content}

theorem Compact.adopt (h : d.Compact) (he : d.element? p = some e)
    (hc : ∀ e', content = .element e' → e'.children = []) :
    (d.adopt p e.children.length content).Compact where
  tree := h.tree.adopt he hc (Nat.le_refl _)
  whole id hid := by
    rw [size_adopt] at hid
    rw [isLive_adopt]
    by_cases hnew : id = d.size
    · simp [hnew]
    · simp [h.whole id (by omega)]
  sorted q := by
    rw [children_adopt he hc, List.insertIdx_length_self]
    split
    · rw [← children_of_element? he]
      refine List.pairwise_append.2 ⟨h.sorted p, List.pairwise_singleton _ _, fun c hc n hn => ?_⟩
      obtain rfl := List.mem_singleton.1 hn
      obtain ⟨node, hnode⟩ := isLive_iff.1 (h.tree.isLive_child hc)
      exact lt_size_of_node? hnode
    · exact h.sorted q

theorem Retains.adopt (he : d.element? p = some e)
    (hc : ∀ e', content = .element e' → e'.children = []) :
    d.Retains (d.adopt p e.children.length content) where
  elements id hid := by
    by_cases hp : id = p
    · rw [hp, element?_adopt he]
      rfl
    · obtain ⟨e', he'⟩ := Option.isSome_iff_exists.1 hid
      rwa [element?_congr (node?_adopt_ne hp (Nat.ne_of_lt (lt_size_of_element? he')))]
  children q c hmem := by
    rw [children_adopt he hc, List.insertIdx_length_self]
    split
    · next hq =>
      rw [hq, children_of_element? he] at hmem
      exact List.mem_append_left _ hmem
    · exact hmem

end Adopt

end Document

open Document

namespace MarkupWriter

/-- The targets that a new one can become: by calls, and by changes of the records of nodes. -/
inductive Reached : MarkupWriter → Prop
  | new : Reached .new
  | call {w : MarkupWriter} (call : TargetCall) : Reached w → Reached (w.step call).2
  | record {w : MarkupWriter} (id : NodeId) (change : NodeRecord → NodeRecord) : Reached w →
      Reached (w.setDocument (w.document.updateRecord id change))

/-- Whatever is closed, the root stays open below everything else. -/
structure Neat (w : MarkupWriter) : Prop where
  compact : w.document.Compact
  stacked : w.document.Stacked w.opened
  bottom : [root] <:+ w.opened

namespace Neat

variable {w : MarkupWriter}

theorem exists_current (h : w.Neat) :
    ∃ top outer e, w.opened = top :: outer ∧ w.document.element? top = some e := by
  obtain ⟨top, outer, hopened⟩ := List.exists_cons_of_ne_nil (h.bottom.ne_nil (by simp))
  have htop : top ∈ w.opened := hopened ▸ List.mem_cons_self
  obtain ⟨e, he⟩ := Option.isSome_iff_exists.1 (h.stacked.elements top htop)
  exact ⟨top, outer, e, hopened, he⟩

theorem setDocument (h : w.Neat) {d : Document} (hs : w.document.SameShape d)
    (hsize : d.size = w.document.size) (hd : w.document.Retains d) : (w.setDocument d).Neat :=
  ⟨h.compact.congr hs hsize, h.stacked.mono hd, h.bottom⟩

theorem updateElement (h : w.Neat) (id : NodeId) {change : Element → Element}
    (hc : ∀ e, (change e).children = e.children) :
    (w.setDocument (w.document.updateElement id change)).Neat :=
  h.setDocument (.updateElement _ _ hc) (size_updateElement ..) (.updateElement _ _ hc)

theorem appendTo (h : w.Neat) {p : NodeId} {e : Element} (he : w.document.element? p = some e)
    {content : Content} (hc : ∀ e', content = .element e' → e'.children = []) :
    (w.appendTo (some p) content).2.Neat := by
  have hd := document_appendTo he content
  refine ⟨?_, ?_, h.bottom⟩
  · rw [hd]
    exact h.compact.adopt he hc
  · rw [hd]
    exact h.stacked.mono (.adopt he hc)

theorem append (h : w.Neat) {content : Content}
    (hc : ∀ e', content = .element e' → e'.children = []) : (w.append content).2.Neat := by
  obtain ⟨top, outer, e, hopened, he⟩ := h.exists_current
  rw [append_eq hopened]
  exact h.appendTo he hc

theorem openElement (h : w.Neat) (name : String) : (w.openElement name).2.Neat := by
  obtain ⟨top, outer, e, hopened, he⟩ := h.exists_current
  have hempty : ∀ e', Content.element (.new name "") = .element e' → e'.children = [] := by
    rintro _ ⟨⟩
    rfl
  have hopen : (w.openElement name).2 =
      { (w.appendTo (some top) (.element (.new name ""))).2 with
        opened := w.document.size :: w.opened } := by
    rw [MarkupWriter.openElement, append_eq hopened]
    rfl
  have hd := document_appendTo he (.element (.new name ""))
  have hnext := h.appendTo he hempty
  have houter : (w.appendTo (some top) (.element (.new name ""))).2.document.Stacked
      (top :: outer) := hopened ▸ hnext.stacked
  rw [hopen]
  refine ⟨hnext.compact, ?_, h.bottom.trans (List.suffix_cons ..)⟩
  simp only [hopened]
  refine houter.push ?_ ?_
  · rw [hd, element?_adopt_new he]
    rfl
  · rw [hd, children_adopt he hempty, if_pos rfl, List.insertIdx_length_self]
    exact List.mem_append_right _ (List.mem_singleton_self _)

theorem shorten (h : w.Neat) {opened : List NodeId} (hs : opened <:+ w.opened)
    (hne : 1 ≤ opened.length) : Neat { w with opened := opened } where
  compact := h.compact
  stacked := h.stacked.suffix hs
  bottom := List.suffix_of_suffix_length_le h.bottom hs hne

theorem closeAll (h : w.Neat) : w.closeAll.Neat := by
  have hlength : 1 ≤ w.opened.length := h.bottom.length_le
  exact h.shorten (List.drop_suffix ..) (by rw [List.length_drop]; omega)

theorem closeElement (h : w.Neat) : w.closeElement.2.Neat := by
  unfold MarkupWriter.closeElement
  split
  · exact h
  · next hinner => exact h.shorten (List.tail_suffix _) (by rw [List.length_tail]; omega)

theorem setAttribute (h : w.Neat) (name value : String) : (w.setAttribute name value).Neat := by
  unfold MarkupWriter.setAttribute
  split
  · next current _ => exact h.updateElement current fun _ => rfl
  · exact h

theorem setAttributes (h : w.Neat) (attributes : List (String × String)) :
    (attributes.foldl (fun w (name, value) => w.setAttribute name value) w).Neat := by
  induction attributes generalizing w with
  | nil => exact h
  | cons a rest ih => exact ih (h.setAttribute a.1 a.2)

theorem step (h : w.Neat) (call : TargetCall) : (w.step call).2.Neat := by
  cases call with
  | beginPatch root mode rule => exact h.closeAll
  | endPatch => exact h.closeAll
  | openElement name key => exact h.openElement name
  | closeElement => exact h.closeElement
  | text value => exact h.append (by simp)
  | setAttribute name value => exact h.setAttribute name value
  | applyStatics attributes => exact h.setAttributes attributes
  | setInnerMarkup id markup => exact h.updateElement id fun _ => rfl
  | setComment id value =>
    exact h.setDocument (.setComment _ id value) (size_setComment ..) (.setComment _ id value)
  | appendComment parent value =>
    simp only [MarkupWriter.step, appendComment]
    split
    · next hparent =>
      obtain ⟨e, he⟩ := Option.isSome_iff_exists.1 hparent
      exact h.appendTo he (by simp)
    · exact h
  | setProperty name value => exact h
  | skip => exact h
  | skipNode => exact h
  | applyAttributes => exact h

end Neat

theorem neat_new : new.Neat where
  compact := compact_single "div"
  stacked := ⟨List.forall_mem_singleton.2 rfl, .singleton _⟩
  bottom := List.suffix_refl _

theorem Reached.neat {w : MarkupWriter} (h : w.Reached) : w.Neat := by
  induction h with
  | new => exact neat_new
  | call call _ ih => exact ih.step call
  | record id change _ ih => exact ih.updateElement id fun _ => rfl

/-- The table as a tree: what is open, who is listed where and in which order, and that printing
and walking come to an end. -/
structure Arena (w : MarkupWriter) : Prop where
  bottom : ∃ inner, w.opened = inner ++ [root] ∧ root ∉ inner
  elements : ∀ id ∈ w.opened, (w.document.element? id).isSome
  nested : ∀ i inner outer, w.opened[i]? = some inner → w.opened[i + 1]? = some outer →
    inner ∈ w.document.children outer
  listed : ∀ id : Nat, 1 ≤ id → id < w.document.size → ∃ p : Nat, p < id ∧
    w.document.parent? id = some p ∧ (w.document.children p).count id = 1 ∧
    ∀ q, q ≠ p → id ∉ w.document.children q
  parents : ∀ p id, id ∈ w.document.children p → w.document.parent? id = some p
  increasing : ∀ p, (w.document.children p).Pairwise fun a b : Nat => a < b
  printed : ∀ id, ∃ visited text, w.document.Prints [id] visited text ∧
    w.document.outerMarkup id = String.ofList text
  content : ∃ visited text, w.document.PrintsInside root visited text ∧
    w.document.innerMarkup root = String.ofList text
  once : ∀ visited text, w.document.PrintsInside root visited text → visited.Nodup
  walked : ∀ p, w.document.Walks (w.document.children p).head? (w.document.children p)

namespace Neat

variable {w : MarkupWriter}

theorem nested (h : w.Neat) {i : Nat} {inner outer : NodeId} (hi : w.opened[i]? = some inner)
    (ho : w.opened[i + 1]? = some outer) : inner ∈ w.document.children outer := by
  obtain ⟨hlt, rfl⟩ := List.getElem?_eq_some_iff.1 ho
  obtain ⟨hlt', rfl⟩ := List.getElem?_eq_some_iff.1 hi
  exact h.stacked.chain.getElem i hlt

theorem exists_inner (h : w.Neat) : ∃ inner, w.opened = inner ++ [root] ∧ root ∉ inner := by
  obtain ⟨inner, hopened⟩ := h.bottom
  refine ⟨inner, hopened.symm, fun hroot => ?_⟩
  obtain ⟨i, hi, hget⟩ := List.getElem_of_mem hroot
  have hlt : i + 1 < w.opened.length := by simp [← hopened, hi]
  have hat : w.opened[i]? = some root := by
    rw [← hopened, List.getElem?_append_left hi, List.getElem?_eq_getElem hi, hget]
  have hmem := h.nested hat (List.getElem?_eq_getElem hlt)
  exact Nat.not_lt_zero _ (h.compact.tree.lt hmem)

theorem listed (h : w.Neat) {id : Nat} (hpos : 1 ≤ id) (hid : id < w.document.size) :
    ∃ p : Nat, p < id ∧ w.document.parent? id = some p ∧
      (w.document.children p).count id = 1 ∧ ∀ q, q ≠ p → id ∉ w.document.children q := by
  have htree := h.compact.tree
  have hsome := TreeBut.rooted htree (h.compact.whole id hid) (Nat.ne_of_gt hpos)
  obtain ⟨p, hp⟩ := Option.isSome_iff_exists.1 hsome
  refine ⟨p, htree.older hp, hp, htree.count_eq_one hp, fun q hq hmem => hq ?_⟩
  exact TreeBut.parent_unique htree hmem (htree.mem_children hp)

theorem arena (h : w.Neat) : w.Arena where
  bottom := h.exists_inner
  elements := h.stacked.elements
  nested _ _ _ := h.nested
  listed _ := h.listed
  parents _ _ := h.compact.tree.parent
  increasing := h.compact.sorted
  printed id := by
    have hlater := TreeBut.pointsLater h.compact.tree
    obtain ⟨visited, text, hprints⟩ := Prints.exists_prints hlater id
    exact ⟨visited, text, hprints, hprints.outerMarkup_eq hlater⟩
  content := by
    have hlater := TreeBut.pointsLater h.compact.tree
    obtain ⟨visited, text, hprints⟩ := PrintsInside.exists_printsInside hlater root
    exact ⟨visited, text, hprints, hprints.innerMarkup_eq hlater⟩
  once _ _ hprints := hprints.nodup h.compact.tree
  walked p := by
    have hwalks := h.compact.tree.walks_drop p 0
    rwa [← List.head?_eq_getElem?, List.drop_zero] at hwalks

end Neat

/-- Whatever is called on a new markup target, with passes that overlap, elements that are closed
too often or never, comments and raw markup at any node: its table is a tree. -/
theorem arena_of_reached {w : MarkupWriter} (h : w.Reached) : w.Arena := h.neat.arena

def after (calls : List TargetCall) : MarkupWriter :=
  calls.foldl (fun w call => (w.step call).2) new

theorem reached_after (calls : List TargetCall) : (after calls).Reached := by
  induction calls using List.reverseRecOn with
  | nil => exact .new
  | append_singleton calls call ih =>
    rw [after, List.foldl_append]
    exact .call call ih

def unbalanced : List TargetCall :=
  [.closeElement, .openElement "ul" "", .openElement "li" "", .text "x", .appendComment 0 "c",
    .setInnerMarkup 2 "<b>y</b>", .endPatch, .text "z", .openElement "p" ""]

theorem arena_of_reached_unbalanced : (after unbalanced).Arena ∧
    (after unbalanced).opened = [6, 0] ∧ (after unbalanced).document.children 0 = [1, 4, 5, 6] ∧
    (after unbalanced).document.innerMarkup 0 =
      "<ul><li><b>y</b></li></ul><!--c-->z<p></p>" :=
  ⟨arena_of_reached (reached_after unbalanced), rfl, rfl, by decide +kernel⟩

end MarkupWriter

end KeyedRender

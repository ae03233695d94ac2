import KeyedRender.Proofs.Document.Region
import KeyedRender.Proofs.Script.Sketch
import KeyedRender.Target.KeyedDom

/-!
# Sketches in a document

While a sketch is drawn into a document, each level of it is shown by the visited children of one
element, and the element of the next level is the child after them. What happens at the innermost
element, to its list and to children not yet visited, leaves all of it in place.
-/
namespace KeyedRender

/-- Each attribute that was set has the value that was set last. -/
def Carries (attributes assigned : List (String × String)) : Prop :=
  ∀ name value, assigned.lookup name = some value → attributes.lookup name = some value

theorem lookup_assign (name value other : String) (attributes : List (String × String)) :
    (assign name value attributes).lookup other =
      if other = name then some value else attributes.lookup other := by
  induction attributes with
  | nil => simp only [assign, List.lookup_cons]; grind
  | cons a rest ih =>
    obtain ⟨existing, old⟩ := a
    simp only [assign]
    split <;> simp only [List.lookup_cons] <;> grind

theorem Carries.assign {attributes assigned : List (String × String)}
    (h : Carries attributes assigned) (name value : String) :
    Carries (KeyedRender.assign name value attributes) ((name, value) :: assigned) := by
  intro other current hother
  rw [lookup_assign]
  by_cases hname : other = name
  · simpa [hname] using hother
  · rw [if_neg hname]
    refine h other current ?_
    simpa only [List.lookup_cons, beq_eq_false_iff_ne.2 hname] using hother

namespace Document

variable {d d' : Document}

/-- Nodes that are what shapes say, in order. -/
inductive Shows (d : Document) : List NodeId → List Shape → Prop
  | nil : Shows d [] []
  | text {id : NodeId} {value : String} {ids : List NodeId} {shapes : List Shape} :
      d.content? id = some (.text value) → Shows d ids shapes →
      Shows d (id :: ids) (.text value :: shapes)
  | element {id : NodeId} {e : Element} {assigned : List (String × String)} {inner : List Shape}
      {ids : List NodeId} {shapes : List Shape} :
      d.element? id = some e → Carries e.attributes assigned → Shows d e.children inner →
      Shows d ids shapes → Shows d (id :: ids) (.element e.name assigned inner :: shapes)

/-- Nodes of two documents with the same names and texts, all the way down. -/
inductive SameTrees (d d' : Document) : List NodeId → List NodeId → Prop
  | nil : SameTrees d d' [] []
  | text {id id' : NodeId} {value : String} {ids ids' : List NodeId} :
      d.content? id = some (.text value) → d'.content? id' = some (.text value) →
      SameTrees d d' ids ids' → SameTrees d d' (id :: ids) (id' :: ids')
  | element {id id' : NodeId} {e e' : Element} {ids ids' : List NodeId} :
      d.element? id = some e → d'.element? id' = some e' → e.name = e'.name →
      SameTrees d d' e.children e'.children → SameTrees d d' ids ids' →
      SameTrees d d' (id :: ids) (id' :: ids')

namespace Shows

variable {ids : List NodeId} {shapes : List Shape}

theorem sameTrees (h : d.Shows ids shapes) {ids' : List NodeId} (h' : d'.Shows ids' shapes) :
    SameTrees d d' ids ids' := by
  induction h generalizing ids' with
  | nil =>
    cases h'
    exact .nil
  | text hc _ ih =>
    cases h' with
    | text hc' hrest => exact .text hc hc' (ih hrest)
  | @element id e _ _ _ _ he _ _ _ ihinner ih =>
    generalize hname : e.name = name at h'
    cases h' with
    | element he' _ hinner hrest => exact .element he he' hname (ihinner hinner) (ih hrest)

theorem append (h : d.Shows ids shapes) {more : List NodeId} {others : List Shape}
    (h' : d.Shows more others) : d.Shows (ids ++ more) (shapes ++ others) := by
  induction h with
  | nil => exact h'
  | text hc _ ih => exact .text hc ih
  | element he hcarries hinner _ _ ih => exact .element he hcarries hinner ih

theorem congr (h : d.Shows ids shapes)
    (same : ∀ top ∈ ids, ∀ id, d.Below top id → d'.node? id = d.node? id) : d'.Shows ids shapes := by
  induction h with
  | nil => exact .nil
  | @text id value ids shapes hc _ ih =>
    have hnode := same id (by simp) id .self
    refine .text ?_ (ih fun top htop => same top (by simp [htop]))
    rwa [content?, hnode]
  | @element id e assigned inner ids shapes he hcarries _ _ ihinner ih =>
    have hnode := same id (by simp) id .self
    refine .element ?_ hcarries (ihinner fun top htop n hn => ?_)
      (ih fun top htop => same top (by simp [htop]))
    · rwa [element?, content?, hnode]
    · exact same id (by simp) n (.head (by rwa [children_of_element? he]) hn)

end Shows

end Document

def Level.ShownAt (l : Level) (d : Document) (f : Frame) : Prop :=
  ∃ e, d.element? f.parent = some e ∧ f.index ≤ e.children.length ∧
    Carries e.attributes l.assigned ∧ d.Shows (e.children.take f.index) l.shapes

/-- A sketch that is being drawn below a root. The frame of an outer level has visited the element
of the next one, which its level does not show yet. -/
inductive Drawn (d : Document) (root : NodeId) : List Frame → Sketch → Prop
  | base {index : Nat} {level : Level} : level.ShownAt d ⟨root, index⟩ →
      Drawn d root [⟨root, index⟩] ⟨level, []⟩
  | nested {f : Frame} {p : NodeId} {index : Nat} {below : List Frame} {level around : Level}
      {outer : List (String × Level)} {e : Element} : level.ShownAt d f →
      (d.children p)[index]? = some f.parent → d.element? f.parent = some e →
      Drawn d root (⟨p, index⟩ :: below) ⟨around, outer⟩ →
      Drawn d root (f :: ⟨p, index + 1⟩ :: below) ⟨level, (e.name, around) :: outer⟩

namespace Drawn

open Document (Below ChangesBelow EditsBelow)

variable {d d' : Document} {root : NodeId} {f : Frame} {below : List Frame} {sk : Sketch}

theorem head (h : Drawn d root (f :: below) sk) : sk.level.ShownAt d f := by
  cases h <;> assumption

theorem below_root (h : Drawn d root (f :: below) sk) : d.Below root f.parent := by
  generalize hframes : f :: below = frames at h
  induction h generalizing f below with
  | base _ =>
    cases hframes
    exact .self
  | nested _ hchild _ _ ih =>
    cases hframes
    exact .child (ih rfl) (List.mem_of_getElem? hchild)

theorem isLive_of_below (hd : d.IsTree) {top id : NodeId} (h : d.Below top id)
    (htop : d.isLive top = true) : d.isLive id = true := by
  cases h with
  | self => exact htop
  | child _ hc => exact hd.isLive_child hc

theorem mem_drop_of_getElem? {α : Type} {l : List α} {a : α} {i j : Nat} (h : l[j]? = some a)
    (hij : i ≤ j) : a ∈ l.drop i := by
  refine List.mem_of_getElem? (i := j - i) ?_
  rw [List.getElem?_drop, Nat.add_sub_cancel' hij, h]

theorem not_below_unvisited (hd : d.IsTree) {p c c' id : NodeId} {i : Nat}
    (hc : c ∈ (d.children p).take i) (hc' : c' ∈ (d.children p).drop i) (hid : d.Below c id) :
    ¬ d.Below c' id := by
  refine hd.not_below_siblings (List.mem_of_mem_take hc) (List.mem_of_mem_drop hc') ?_ hid
  have hnodup : ((d.children p).take i ++ (d.children p).drop i).Nodup := by
    rw [List.take_append_drop]
    exact Document.TreeBut.nodup hd p
  exact (List.nodup_append.1 hnodup).2.2 c hc c' hc'

theorem shownAt_changesBelow (hd : d.IsTree) {level : Level} (h : level.ShownAt d f) {j : Nat}
    {top : NodeId} (hj : f.index ≤ j) (htop : (d.children f.parent)[j]? = some top)
    (hc : d.ChangesBelow top d') :
    level.ShownAt d' f ∧ d'.element? f.parent = d.element? f.parent := by
  obtain ⟨e, he, hindex, hcarries, hshows⟩ := h
  have hsame : ∀ id, d.isLive id = true → ¬ d.Below top id → d'.node? id = d.node? id := by
    intro id hlive hout
    obtain ⟨n, hn⟩ := Document.isLive_iff.1 hlive
    exact hc id (Document.lt_size_of_node? hn) hout
  have hparent : d'.element? f.parent = d.element? f.parent := by
    have hlt := hd.lt (List.mem_of_getElem? htop)
    have hnode := hsame f.parent (Document.isLive_of_element? he)
      fun hb => absurd (hb.le (Document.TreeBut.pointsLater hd)) (Nat.not_le.2 hlt)
    rw [Document.element?, Document.content?, hnode]
    rfl
  refine ⟨⟨e, hparent.trans he, hindex, hcarries, hshows.congr fun c hcmem id hid => ?_⟩, hparent⟩
  rw [← Document.children_of_element? he] at hcmem
  have hlive := isLive_of_below hd hid (hd.isLive_child (List.mem_of_mem_take hcmem))
  exact hsame id hlive (not_below_unvisited hd hcmem (mem_drop_of_getElem? htop hj) hid)

theorem changesBelow (hd : d.IsTree) (h : Drawn d root (f :: below) sk) {j : Nat} {top : NodeId}
    (hj : f.index ≤ j) (htop : (d.children f.parent)[j]? = some top) (hc : d.ChangesBelow top d') :
    Drawn d' root (f :: below) sk := by
  generalize hframes : f :: below = frames at h
  induction h generalizing f below j top with
  | base hshown =>
    cases hframes
    exact .base (shownAt_changesBelow hd hshown hj htop hc).1
  | @nested g p index _ _ _ _ _ hshown hchild he hrest ih =>
    cases hframes
    obtain ⟨hshown', hparent⟩ := shownAt_changesBelow hd hshown hj htop hc
    have hout : d.ChangesBelow g.parent d' := fun id hid hb =>
      hc id hid fun hb' => hb (.head (List.mem_of_getElem? htop) hb')
    have hp := (shownAt_changesBelow hd hrest.head (Nat.le_refl _) hchild hout).2
    have hbelow := ih (f := ⟨p, index⟩) (Nat.le_refl index) hchild hout rfl
    refine .nested hshown' ?_ (hparent.trans he) hbelow
    rwa [Document.children, hp]

theorem innermost (hd : d.IsTree) (h : Drawn d root (f :: below) sk)
    (hc : d.ChangesBelow f.parent d') {e e' : Element} (he : d.element? f.parent = some e)
    (he' : d'.element? f.parent = some e') (hname : e'.name = e.name) {level : Level} {index : Nat}
    (hshown : level.ShownAt d' ⟨f.parent, index⟩) :
    Drawn d' root (⟨f.parent, index⟩ :: below) ⟨level, sk.outer⟩ := by
  cases h with
  | base _ => exact .base hshown
  | nested _ hchild hf hrest =>
    obtain rfl := Option.some.inj (he.symm.trans hf)
    have hp := (shownAt_changesBelow hd hrest.head (Nat.le_refl _) hchild hc).2
    rw [← hname]
    refine .nested hshown ?_ he' (hrest.changesBelow hd (Nat.le_refl _) hchild hc)
    rwa [Document.children, hp]

theorem ne_of_below_child (hd : d.IsTree) {p c id : NodeId} (hc : c ∈ d.children p)
    (hid : d.Below c id) : id ≠ p := by
  have hlt := hd.lt hc
  have hle := hid.le (Document.TreeBut.pointsLater hd)
  rintro rfl
  exact absurd hlt (Nat.not_lt.2 hle)

theorem assigned (hd : d.IsTree) (h : Drawn d root (f :: below) sk) (name value : String) :
    Drawn (d.updateElement f.parent (Element.setAttribute name value)) root (f :: below)
      (sk.assigned name value) := by
  obtain ⟨e, he, hindex, hcarries, hshows⟩ := h.head
  have he' : (d.updateElement f.parent (Element.setAttribute name value)).element? f.parent =
      some (e.setAttribute name value) := by
    rw [Document.element?_updateElement, if_pos rfl, he]
    rfl
  refine h.innermost hd (.updateElement d _ _) he he' rfl ⟨_, he', hindex, hcarries.assign name value,
    hshows.congr fun c hc id hid => ?_⟩
  refine Document.node?_updateElement_ne _ (ne_of_below_child hd ?_ hid)
  rw [Document.children_of_element? he]
  exact List.mem_of_mem_take hc

theorem opened (h : Drawn d root (f :: below) sk) {id : NodeId} {e : Element}
    (hid : (d.children f.parent)[f.index]? = some id) (he : d.element? id = some e) :
    Drawn d root (⟨id, 0⟩ :: { f with index := f.index + 1 } :: below) (sk.opened e.name) := by
  have hblank : Level.blank.ShownAt d ⟨id, 0⟩ :=
    ⟨e, he, Nat.zero_le _, by simp [Carries, Level.blank], by simpa using .nil⟩
  exact .nested hblank hid he h

theorem added (hd : d.IsTree) (h : Drawn d root (f :: below) sk) {id : NodeId} {shape : Shape}
    (hid : (d.children f.parent)[f.index]? = some id) (hshape : d.Shows [id] [shape]) :
    Drawn d root ({ f with index := f.index + 1 } :: below) ⟨sk.level.add shape, sk.outer⟩ := by
  obtain ⟨e, he, -, hcarries, hshows⟩ := h.head
  rw [Document.children_of_element? he] at hid
  obtain ⟨hlt, hget⟩ := List.getElem?_eq_some_iff.1 hid
  have htake : e.children.take (f.index + 1) = e.children.take f.index ++ [id] := by
    rw [List.take_succ_eq_append_getElem hlt, hget]
  refine h.innermost hd (fun _ _ _ => rfl) he he rfl ⟨e, he, hlt, hcarries, ?_⟩
  rw [htake]
  exact hshows.append hshape

theorem closed (hd : d.IsTree) {g : Frame} (h : Drawn d root (f :: g :: below) sk)
    (hall : (d.children f.parent).length ≤ f.index) : Drawn d root (g :: below) sk.closed := by
  cases h with
  | @nested _ p index _ level around outer e hshown hchild he hrest =>
    obtain ⟨e', he', hindex, hcarries, hshows⟩ := hshown
    obtain rfl := Option.some.inj (he.symm.trans he')
    rw [Document.children_of_element? he] at hall
    rw [List.take_of_length_le hall] at hshows
    exact hrest.added hd hchild (.element he hcarries hshows .nil)

end Drawn

structure Document.Revises (d : Document) (f : Frame) (d' : Document) : Prop where
  edits : d.EditsBelow f.parent d'
  visited : ∀ c ∈ (d.children f.parent).take f.index, ∀ id, d.Below c id → d'.node? id = d.node? id
  current : ∀ e, d.element? f.parent = some e → ∃ e', d'.element? f.parent = some e' ∧
    e'.name = e.name ∧ e'.attributes = e.attributes ∧
    e'.children.take f.index = e.children.take f.index ∧ f.index ≤ e'.children.length

theorem Drawn.revised {d d' : Document} {root : NodeId} {f : Frame} {below : List Frame}
    {sk : Sketch} (hd : d.IsTree) (h : Drawn d root (f :: below) sk) (hr : d.Revises f d') :
    Drawn d' root (f :: below) sk := by
  obtain ⟨e, he, hindex, hcarries, hshows⟩ := h.head
  obtain ⟨e', he', hname, hattributes, htake, hindex'⟩ := hr.current e he
  refine h.innermost hd hr.edits.changes he he' hname
    ⟨e', he', hindex', hattributes ▸ hcarries, ?_⟩
  rw [htake]
  refine hshows.congr fun c hc id hid => hr.visited c ?_ id hid
  rwa [Document.children_of_element? he]

end KeyedRender

import KeyedRender.Proofs.Document.Walking
import KeyedRender.Proofs.Target.Attachment

/-!
# Scanning siblings for a component

A component is looked for by going from sibling to sibling, with no bound on the number of steps.
In a tree the scan ends; with what the slots and the components say of each other it finds the
first slot that suits, and what it finds is attached nowhere else.
-/
namespace KeyedRender

open Document (slot? following)
open RenderM (findAttached? Holds)

/-- Whether the slot of a node is the one that is looked for. -/
def Suits (g : Registry) (type : ComponentType) (key : String) (s : ComponentSlot) : Prop :=
  s.tag = type.tag ∧ Key.isMatchingText key s.key ∧
    (g.component? s.component).map Component.type = some type

/-- The loop of a search: on to the next sibling until a slot suits or there is none. -/
inductive Scans (d : Document) (g : Registry) (type : ComponentType) (key : String) :
    Option NodeId → Option ComponentId → Prop
  | ended : Scans d g type key none none
  | found {n : NodeId} {s : ComponentSlot} : d.slot? n = some s → Suits g type key s →
      Scans d g type key (some n) (some s.component)
  | next {n : NodeId} {found : Option ComponentId} :
      (∀ s, d.slot? n = some s → ¬ Suits g type key s) →
      Scans d g type key (d.nextSibling? n) found → Scans d g type key (some n) found

/-- The component in the slot of a node, if the slot has the tag of a type and a key that begins
with the wanted one or begins it. -/
def offered? (d : Document) (type : ComponentType) (key : String) (n : NodeId) :
    Option ComponentId :=
  match d.slot? n with
  | some s =>
    if s.tag = type.tag ∧ (s.key.toList <+: key.toList ∨ key.toList <+: s.key.toList) then
      some s.component
    else none
  | none => none

variable {d : Document} {g : Registry} {type : ComponentType} {key : String}
  {pointer : Option NodeId} {found : Option ComponentId} {l : List NodeId}

theorem Scans.unique {other : Option ComponentId} (h : Scans d g type key pointer found)
    (h' : Scans d g type key pointer other) : found = other := by
  induction h with
  | ended =>
    cases h'
    rfl
  | found hs hsuits =>
    cases h' with
    | found hs' _ =>
      rw [hs] at hs'
      cases hs'
      rfl
    | next hnone _ => exact absurd hsuits (hnone _ hs)
  | next hnone _ ih =>
    cases h' with
    | found hs' hsuits => exact absurd hsuits (hnone _ hs')
    | next _ hrest => exact ih hrest

theorem findAttached?_cons (d : Document) (g : Registry) (type : ComponentType) (key : String)
    (n : NodeId) (rest : List NodeId) :
    (∃ s, d.slot? n = some s ∧ Suits g type key s ∧
      findAttached? d g type key (n :: rest) = some s.component) ∨
    (∀ s, d.slot? n = some s → ¬ Suits g type key s) ∧
      findAttached? d g type key (n :: rest) = findAttached? d g type key rest := by
  rw [findAttached?]
  split
  · next hnone =>
    refine .inr ⟨fun s hs => ?_, rfl⟩
    rw [slot?, hnone] at hs
    cases hs
  · next s hs =>
    split
    · next hsuits => exact .inl ⟨s, hs, hsuits, rfl⟩
    · next hsuits =>
      refine .inr ⟨fun s' hs' => ?_, rfl⟩
      obtain rfl := Option.some.inj (hs.symm.trans hs')
      exact hsuits

theorem scans_of_walks (h : d.Walks pointer l) :
    Scans d g type key pointer (findAttached? d g type key l) := by
  induction h with
  | done => exact .ended
  | @next n rest _ ih =>
    rcases findAttached?_cons d g type key n rest with
      ⟨s, hs, hsuits, heq⟩ | ⟨hnone, heq⟩
    · exact heq ▸ .found hs hsuits
    · exact heq ▸ .next hnone ih

/-- As many steps as there are nodes are enough for the walk. -/
theorem findAttached?_siblingsFrom (hd : d.IsTree) (pointer : Option NodeId) :
    findAttached? d g type key (d.siblingsFrom pointer) =
      findAttached? d g type key (d.following pointer) := by
  cases pointer with
  | none => rw [Document.siblingsFrom_none]; rfl
  | some id =>
    cases hp : d.parent? id with
    | some p =>
      rw [Document.following_of_parent? hp, ← hd.siblingsFrom_eq, hd.getElem?_idxOf hp]
    | none =>
      have hlast : d.nextSibling? id = none := by simp [Document.nextSibling?, hp]
      rw [Document.following_of_orphan hp, Document.siblingsFrom]
      cases hsize : d.size with
      | zero =>
        -- Without any node there is no slot either.
        have hdead : d.node? id = none :=
          Document.node?_of_size_le (by rw [hsize]; exact Nat.zero_le _)
        rcases findAttached?_cons d g type key id [] with
          ⟨s, hs, -⟩ | ⟨-, heq⟩
        · simp [slot?, Document.record?, Document.element?, Document.content?, hdead] at hs
        · exact heq.symm
      | succ n =>
        rw [Document.siblingsWithin, hlast]
        cases n <;> rfl

theorem scans_iff (hd : d.IsTree) :
    Scans d g type key pointer found ↔
      found = findAttached? d g type key (d.siblingsFrom pointer) := by
  have hscans : Scans d g type key pointer _ := scans_of_walks (hd.walks_following pointer)
  rw [← findAttached?_siblingsFrom hd] at hscans
  constructor
  · exact fun h => h.unique hscans
  · rintro rfl
    exact hscans

theorem suits_iff (hl : Linked d g)
    (htags : ∀ id c, g.component? id = some c → c.type.tag = type.tag → c.type = type)
    {n : NodeId} {s : ComponentSlot} (hs : d.slot? n = some s) :
    Suits g type key s ↔
      s.tag = type.tag ∧ (s.key.toList <+: key.toList ∨ key.toList <+: s.key.toList) := by
  obtain ⟨c, hc, -, htag, -⟩ := hl n s hs
  have hmatch : Key.isMatchingText key s.key = true ↔
      s.key.toList <+: key.toList ∨ key.toList <+: s.key.toList := by
    simp [Key.isMatchingText, List.isPrefixOf_iff_prefix]
  unfold Suits
  rw [hmatch]
  constructor
  · exact fun h => ⟨h.1, h.2.1⟩
  · rintro ⟨htype, hkey⟩
    refine ⟨htype, hkey, ?_⟩
    rw [hc, Option.map_some, htags _ c hc (htag.symm.trans htype)]

theorem findAttached?_eq_findSome? (hl : Linked d g)
    (htags : ∀ id c, g.component? id = some c → c.type.tag = type.tag → c.type = type)
    (l : List NodeId) :
    findAttached? d g type key l = l.findSome? (offered? d type key) := by
  induction l with
  | nil => rfl
  | cons n rest ih =>
    rw [List.findSome?_cons, offered?]
    rcases findAttached?_cons d g type key n rest with
      ⟨s, hs, hsuits, heq⟩ | ⟨hnone, heq⟩
    · rw [heq, hs]
      simp only [if_pos ((suits_iff hl htags hs).1 hsuits)]
    · rw [heq, ih]
      cases hs : d.slot? n with
      | none => rfl
      | some s => simp only [if_neg fun h => hnone s hs ((suits_iff hl htags hs).2 h)]

/-- A component that is found is attached to a node of the scan and to no other one. -/
theorem mem_of_findAttached? (hl : Linked d g) {id : ComponentId}
    (h : findAttached? d g type key l = some id) {n : NodeId} (hn : Holds d n id) : n ∈ l := by
  obtain ⟨m, hm, s, hs, hid, -⟩ := slot_of_findAttached? h
  obtain ⟨s', hs', hid'⟩ := Document.holds_iff.1 hn
  rwa [hl.unique hs hs' (hid'.trans hid.symm)]

namespace Document

/-- A node stands where a scan from another one may look: it has the same parent, is not listed
before it, and is not below any node of the scan. -/
structure Ahead (d : Document) (q n : NodeId) : Prop where
  parent : d.parent? n = d.parent? q
  later : ∀ (p : NodeId) (i j : Nat), (d.children p)[i]? = some q → (d.children p)[j]? = some n →
    i ≤ j
  apart : ∀ r ∈ d.following (some q), d.Below r n → n = r

theorem IsTree.ahead_of_mem (hd : d.IsTree) {q n : NodeId} (hn : n ∈ d.following (some q)) :
    d.Ahead q n := by
  cases hp : d.parent? q with
  | none =>
    rw [following_of_orphan hp] at hn
    obtain rfl := List.mem_singleton.1 hn
    refine ⟨rfl, fun p i j hi _ => ?_, fun r hr _ => ?_⟩
    · rw [hd.parent (List.mem_of_getElem? hi)] at hp
      cases hp
    · rw [following_of_orphan hp] at hr
      exact (List.mem_singleton.1 hr).symm
  | some p =>
    have hnodup := TreeBut.nodup hd p
    have hfollowing := following_of_parent? hp
    have hmem : ∀ r ∈ d.following (some q), r ∈ d.children p := fun r hr =>
      List.mem_of_mem_drop (hfollowing ▸ hr)
    have hchild := hmem n hn
    refine ⟨(hd.parent hchild).trans hp.symm, fun p' i j hi hj => ?_, fun r hr hb => ?_⟩
    · obtain rfl : p' = p :=
        Option.some.inj ((hd.parent (List.mem_of_getElem? hi)).symm.trans hp)
      rw [hfollowing] at hn
      obtain ⟨k, hk⟩ := List.getElem?_of_mem hn
      rw [List.getElem?_drop] at hk
      obtain ⟨hlti, -⟩ := List.getElem?_eq_some_iff.1 hi
      obtain ⟨hltj, -⟩ := List.getElem?_eq_some_iff.1 hj
      have hi' := (List.getElem?_inj hlti hnodup).1 (hi.trans (hd.getElem?_idxOf hp).symm)
      have hj' := (List.getElem?_inj hltj hnodup).1 (hj.trans hk.symm)
      omega
    · by_contra hne
      exact hd.not_below_siblings (hmem r hr) hchild (Ne.symm hne) hb .self

end Document

end KeyedRender

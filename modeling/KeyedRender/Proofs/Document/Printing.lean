import KeyedRender.Proofs.Document.Spelling

/-!
# Printing a document

Printing goes down from a node to its children and knows no bound on the depth. Where child lists
point to later nodes it comes to an end with the node's markup, and in a tree it meets no node
twice.
-/
namespace KeyedRender.Document

open Markup

/-- Printing nodes one after the other: the nodes that are met and the markup. What is inside of a
void element or under raw markup is not looked at, and a number that names no node prints
nothing. -/
inductive Prints (d : Document) : List NodeId → List NodeId → List Char → Prop
  | nil : Prints d [] [] []
  | absent {id : Nat} {rest more : List NodeId} {text : List Char} : d.content? id = none →
      Prints d rest more text → Prints d (id :: rest) more text
  | text {id : Nat} {value : String} {rest more : List NodeId} {text : List Char} :
      d.content? id = some (.text value) → Prints d rest more text →
      Prints d (id :: rest) (id :: more) (escape .content value.toList ++ text)
  | comment {id : Nat} {value : String} {rest more : List NodeId} {text : List Char} :
      d.content? id = some (.comment value) → Prints d rest more text →
      Prints d (id :: rest) (id :: more)
        ("<!--".toList ++ value.toList ++ "-->".toList ++ text)
  | void {id : Nat} {e : Element} {rest more : List NodeId} {text : List Char} :
      d.element? id = some e → e.name ∈ voidElements → Prints d rest more text →
      Prints d (id :: rest) (id :: more) (startTag e.name e.attributes ++ text)
  | raw {id : Nat} {e : Element} {markup : String} {rest more : List NodeId}
      {text : List Char} :
      d.element? id = some e → e.name ∉ voidElements → e.raw = some markup →
      Prints d rest more text →
      Prints d (id :: rest) (id :: more)
        (startTag e.name e.attributes ++ (markup.toList ++ endTag e.name) ++ text)
  | element {id : Nat} {e : Element} {rest inside more : List NodeId} {inner text : List Char} :
      d.element? id = some e → e.name ∉ voidElements → e.raw = none →
      Prints d e.children inside inner → Prints d rest more text →
      Prints d (id :: rest) (id :: (inside ++ more))
        (startTag e.name e.attributes ++ (inner ++ endTag e.name) ++ text)

/-- Printing what is inside of a node. -/
inductive PrintsInside (d : Document) (id : NodeId) : List NodeId → List Char → Prop
  | raw {e : Element} {markup : String} : d.element? id = some e → e.raw = some markup →
      PrintsInside d id [] markup.toList
  | children {e : Element} {inside : List NodeId} {inner : List Char} :
      d.element? id = some e → e.raw = none → Prints d e.children inside inner →
      PrintsInside d id inside inner
  | leaf : d.element? id = none → PrintsInside d id [] []

variable {d : Document} {ids rest visited more : List NodeId} {text others : List Char}

theorem pairwise_apart_children (hd : d.IsTree) (id : NodeId) :
    (d.children id).Pairwise fun a b => ∀ n, d.Below a n → ¬ d.Below b n :=
  (TreeBut.nodup hd id).pairwise_of_forall_ne fun _ ha _ hb hab _ hna =>
    hd.not_below_siblings ha hb hab hna

theorem succ_of_content? {id fuel : Nat} {content : Content} (hc : d.content? id = some content)
    (hfuel : d.size ≤ fuel + id) : ∃ n, fuel = n + 1 := by
  have hid := lt_size_of_content? hc
  exact ⟨fuel - 1, by omega⟩

theorem treeWithin_of_element? {id fuel : Nat} {e : Element} (he : d.element? id = some e)
    (hfuel : d.size ≤ fuel + id) : ∃ n, fuel = n + 1 ∧ d.treeWithin fuel id =
      some (.element e.name e.attributes e.raw (e.children.filterMap (d.treeWithin n))) := by
  have hc := element?_eq_some_iff.1 he
  obtain ⟨n, rfl⟩ := succ_of_content? hc hfuel
  exact ⟨n, rfl, by rw [treeWithin, hc]⟩

namespace Prints

theorem cons {id : NodeId} (h : d.Prints [id] visited text) (h' : d.Prints rest more others) :
    d.Prints (id :: rest) (visited ++ more) (text ++ others) := by
  generalize hids : [id] = ids at h
  cases h with
  | nil => cases hids
  | absent hc hnil =>
    cases hids
    cases hnil
    exact .absent hc h'
  | text hc hnil =>
    cases hids
    cases hnil
    simpa using Prints.text hc h'
  | comment hc hnil =>
    cases hids
    cases hnil
    simpa using Prints.comment hc h'
  | void he hv hnil =>
    cases hids
    cases hnil
    simpa using Prints.void he hv h'
  | raw he hv hr hnil =>
    cases hids
    cases hnil
    simpa using Prints.raw he hv hr h'
  | element he hv hr hinner hnil =>
    cases hids
    cases hnil
    simpa using Prints.element he hv hr hinner h'

theorem exists_of_forall (h : ∀ id ∈ ids, ∃ visited text, d.Prints [id] visited text) :
    ∃ visited text, d.Prints ids visited text := by
  induction ids with
  | nil => exact ⟨[], [], .nil⟩
  | cons id rest ih =>
    obtain ⟨hid, hrest⟩ := List.forall_mem_cons.1 h
    obtain ⟨visited, text, hfirst⟩ := hid
    obtain ⟨more, others, hothers⟩ := ih hrest
    exact ⟨_, _, hfirst.cons hothers⟩

/-- Children come after their parents, so that going down ends. -/
theorem exists_prints (hd : d.PointsLater) (id : Nat) :
    ∃ visited text, d.Prints [id] visited text := by
  induction hn : d.size - id using Nat.strongRecOn generalizing id with
  | _ n ih =>
    cases hc : d.content? id with
    | none => exact ⟨_, _, .absent hc .nil⟩
    | some content =>
      cases content with
      | text value => exact ⟨_, _, .text hc .nil⟩
      | comment value => exact ⟨_, _, .comment hc .nil⟩
      | element e =>
        have he : d.element? id = some e := element?_eq_some_iff.2 hc
        by_cases hv : e.name ∈ voidElements
        · exact ⟨_, _, .void he hv .nil⟩
        cases hr : e.raw with
        | some markup => exact ⟨_, _, .raw he hv hr .nil⟩
        | none =>
          have hid := lt_size_of_element? he
          have hchildren : ∃ inside inner, d.Prints e.children inside inner := by
            refine exists_of_forall fun c hmem => ?_
            have hlater : id < c := hd id c (by rwa [children_of_element? he])
            exact ih (d.size - c) (by omega) c rfl
          obtain ⟨inside, inner, hinner⟩ := hchildren
          exact ⟨_, _, .element he hv hr hinner .nil⟩

/-- What is printed is the markup of the trees that are read off the document. -/
theorem outerAll_eq (hd : d.PointsLater) (h : d.Prints ids visited text) {fuel : Nat}
    (hfuel : ∀ id : Nat, id ∈ ids → d.size ≤ fuel + id) :
    Tree.outerAll (ids.filterMap (d.treeWithin fuel)) = text := by
  -- Children come after their parents, so that one step of fuel for each level is enough.
  induction h generalizing fuel with
  | nil => rfl
  | @absent id rest more text hc _ ih =>
    have hnone : d.treeWithin fuel id = none := by
      cases fuel with
      | zero => rfl
      | succ fuel => rw [treeWithin, hc]
    rw [List.filterMap_cons_none hnone]
    exact ih fun i hi => hfuel i (List.mem_cons_of_mem _ hi)
  | @text id value rest more text hc _ ih =>
    obtain ⟨n, rfl⟩ := succ_of_content? hc (hfuel id (List.mem_cons_self ..))
    have htree : d.treeWithin (n + 1) id = some (.text value) := by rw [treeWithin, hc]
    rw [List.filterMap_cons_some htree, Tree.outerAll, Tree.outer,
      ih fun i hi => hfuel i (List.mem_cons_of_mem _ hi)]
  | @comment id value rest more text hc _ ih =>
    obtain ⟨n, rfl⟩ := succ_of_content? hc (hfuel id (List.mem_cons_self ..))
    have htree : d.treeWithin (n + 1) id = some (.comment value) := by rw [treeWithin, hc]
    rw [List.filterMap_cons_some htree, Tree.outerAll, Tree.outer,
      ih fun i hi => hfuel i (List.mem_cons_of_mem _ hi)]
  | @void id e rest more text he hv _ ih =>
    obtain ⟨n, rfl, htree⟩ := treeWithin_of_element? he (hfuel id (List.mem_cons_self ..))
    rw [List.filterMap_cons_some htree, Tree.outerAll, Tree.outer.eq_def]
    simp only [if_pos hv, List.append_nil,
      ih fun i hi => hfuel i (List.mem_cons_of_mem _ hi)]
  | @raw id e markup rest more text he hv hr _ ih =>
    obtain ⟨n, rfl, htree⟩ := treeWithin_of_element? he (hfuel id (List.mem_cons_self ..))
    rw [List.filterMap_cons_some htree, Tree.outerAll, Tree.outer.eq_def]
    simp only [if_neg hv, hr, ih fun i hi => hfuel i (List.mem_cons_of_mem _ hi)]
  | @element id e rest inside more inner text he hv hr _ _ ihinner ih =>
    obtain ⟨n, rfl, htree⟩ := treeWithin_of_element? he (hfuel id (List.mem_cons_self ..))
    have hinner : Tree.outerAll (e.children.filterMap (d.treeWithin n)) = inner := by
      refine ihinner fun (c : Nat) hc => ?_
      have hid := hfuel id (List.mem_cons_self ..)
      have hlater : id < c := hd id c (by rwa [children_of_element? he])
      omega
    rw [List.filterMap_cons_some htree, Tree.outerAll, Tree.outer.eq_def]
    simp only [if_neg hv, hr, hinner, ih fun i hi => hfuel i (List.mem_cons_of_mem _ hi)]

theorem below_of_mem (h : d.Prints ids visited text) {n : NodeId} (hn : n ∈ visited) :
    ∃ id ∈ ids, d.Below id n := by
  have later : ∀ {id : NodeId} {rest : List NodeId}, (∃ i ∈ rest, d.Below i n) →
      ∃ i ∈ id :: rest, d.Below i n := fun ⟨i, hi, hb⟩ => ⟨i, List.mem_cons_of_mem _ hi, hb⟩
  have here : ∀ {id : NodeId} {rest : List NodeId}, d.Below id n → ∃ i ∈ id :: rest, d.Below i n :=
    fun hb => ⟨_, List.mem_cons_self .., hb⟩
  induction h with
  | nil => cases hn
  | absent _ _ ih => exact later (ih hn)
  | text _ _ ih | comment _ _ ih | void _ _ _ ih | raw _ _ _ _ ih =>
    rcases List.mem_cons.1 hn with rfl | hn
    · exact here .self
    · exact later (ih hn)
  | element he _ _ _ _ ihinner ih =>
    rcases List.mem_cons.1 hn with rfl | hn
    · exact here .self
    rcases List.mem_append.1 hn with hn | hn
    · obtain ⟨c, hc, hb⟩ := ihinner hn
      exact here (hb.head (by rwa [children_of_element? he]))
    · exact later (ih hn)

theorem nodup (hd : d.IsTree) (h : d.Prints ids visited text)
    (hids : ids.Pairwise fun a b => ∀ n, d.Below a n → ¬ d.Below b n) : visited.Nodup := by
  have apart : ∀ {id n : NodeId} {rest more : List NodeId} {text : List Char},
      (∀ b ∈ rest, ∀ n, d.Below id n → ¬ d.Below b n) → d.Prints rest more text →
      d.Below id n → n ∉ more := by
    intro id n rest more text hrest hmore hb hn
    obtain ⟨b, hb', hbelow⟩ := hmore.below_of_mem hn
    exact hrest b hb' n hb hbelow
  induction h with
  | nil => exact List.nodup_nil
  | absent _ _ ih => exact ih (List.pairwise_cons.1 hids).2
  | text _ hmore ih | comment _ hmore ih | void _ _ hmore ih | raw _ _ _ hmore ih =>
    obtain ⟨hfirst, hrest⟩ := List.pairwise_cons.1 hids
    exact List.nodup_cons.2 ⟨apart hfirst hmore .self, ih hrest⟩
  | @element id e _ _ _ _ _ he _ _ hinner hmore ihinner ih =>
    obtain ⟨hfirst, hrest⟩ := List.pairwise_cons.1 hids
    rw [← children_of_element? he] at hinner ihinner
    have hchildren := ihinner (pairwise_apart_children hd id)
    refine List.nodup_cons.2 ⟨fun hn => ?_, List.nodup_append.2 ⟨hchildren, ih hrest, ?_⟩⟩
    · rcases List.mem_append.1 hn with hn | hn
      · obtain ⟨c, hc, hb⟩ := hinner.below_of_mem hn
        exact absurd (hb.le (TreeBut.pointsLater hd)) (Nat.not_le.2 (hd.lt hc))
      · exact apart hfirst hmore .self hn
    · rintro n hn _ hn' rfl
      obtain ⟨c, hc, hb⟩ := hinner.below_of_mem hn
      exact apart hfirst hmore (hb.head hc) hn'

theorem outerMarkup_eq (hd : d.PointsLater) {id : NodeId} (h : d.Prints [id] visited text) :
    d.outerMarkup id = String.ofList text := by
  rw [← h.outerAll_eq hd (fun id _ => Nat.le_add_right d.size id), outerMarkup, tree?]
  cases htree : d.treeWithin d.size id <;> simp [htree, Tree.outerAll]

end Prints

namespace PrintsInside

variable {id : NodeId}

theorem exists_printsInside (hd : d.PointsLater) (id : NodeId) :
    ∃ visited text, d.PrintsInside id visited text := by
  cases he : d.element? id with
  | none => exact ⟨_, _, .leaf he⟩
  | some e =>
    cases hr : e.raw with
    | some markup => exact ⟨_, _, .raw he hr⟩
    | none =>
      have hchildren : ∀ c ∈ e.children, ∃ visited text, d.Prints [c] visited text :=
        fun c _ => Prints.exists_prints hd c
      obtain ⟨inside, inner, hinner⟩ := Prints.exists_of_forall hchildren
      exact ⟨_, _, .children he hr hinner⟩

theorem nodup (hd : d.IsTree) (h : d.PrintsInside id visited text) : visited.Nodup := by
  cases h with
  | raw _ _ => exact List.nodup_nil
  | leaf _ => exact List.nodup_nil
  | children he _ hinner =>
    rw [← children_of_element? he] at hinner
    exact hinner.nodup hd (pairwise_apart_children hd id)

theorem innerMarkup_eq (hd : d.PointsLater) {id : Nat} (h : d.PrintsInside id visited text) :
    d.innerMarkup id = String.ofList text := by
  have read : ∀ {e : Element}, d.element? id = some e → ∃ n, d.size = n + 1 ∧
      d.innerMarkup id = String.ofList (Tree.inner (.element e.name e.attributes e.raw
        (e.children.filterMap (d.treeWithin n)))) := by
    intro e he
    obtain ⟨n, hn, htree⟩ := treeWithin_of_element? he (Nat.le_add_right d.size id)
    exact ⟨n, hn, by rw [innerMarkup, tree?, htree]; rfl⟩
  cases h with
  | raw he hr =>
    obtain ⟨n, -, hread⟩ := read he
    rw [hread, hr, Tree.inner]
  | leaf he =>
    have hinner : ∀ t, d.tree? id = some t → t.inner = [] := by
      intro t ht
      rw [tree?] at ht
      cases hn : d.size with
      | zero =>
        rw [hn] at ht
        cases ht
      | succ n =>
        rw [hn, treeWithin] at ht
        split at ht
        · next hc =>
          rw [element?_eq_some_iff.2 hc] at he
          cases he
        · exact Option.some.inj ht ▸ rfl
        · exact Option.some.inj ht ▸ rfl
        · cases ht
    rw [innerMarkup]
    cases ht : d.tree? id with
    | none => rfl
    | some t => rw [Option.map_some, Option.getD_some, hinner t ht]
  | @children e inside inner he hr hinner =>
    obtain ⟨n, hn, hread⟩ := read he
    have hall : Tree.outerAll (e.children.filterMap (d.treeWithin n)) = text := by
      refine hinner.outerAll_eq hd fun c hc => ?_
      have hlater : id < c := hd id c (by rwa [children_of_element? he])
      omega
    rw [hread, hr, Tree.inner, hall]

end PrintsInside

end KeyedRender.Document

import KeyedRender.Proofs.Session.Skipped
import KeyedRender.Proofs.Target.Scanning

/-!
# Searches in a session

Wherever a session has come to, a search for a component ends. It finds what is in the first slot
that suits, from the pointer on, and nothing that is attached before the pointer, below a node or
elsewhere.
-/
namespace KeyedRender.Session

open RenderM (findAttached? Holds)

/-- The targets that sessions come to, with the components that there are: between acts, and
before every step of a pass. -/
inductive Occurs : KeyedDom → Registry → Prop
  | between {s : Session KeyedDom} : Reached Addresses s → Occurs s.target s.registry
  | within {s : Session KeyedDom} {a : Act} {m : Moment KeyedDom} : Reached Addresses s →
      s.Addresses a → m ∈ s.momentsOf a →
      Occurs m.state.renderer.pass.target m.state.shared.registry

variable {t : KeyedDom} {g : Registry} {type : ComponentType}

theorem Occurs.orderly (h : Occurs t g) : Orderly t g := by
  cases h with
  | between hs => exact hs.orderly
  | within hs ha hm =>
    obtain ⟨ctx, -, hscripted⟩ := scripted_momentsOf hs.orderly ha
    exact hscripted.holds orderly_calls _ hm

/-- From any pointer the scan ends, in one way. Its result is the component in the first slot, of
the pointer or a sibling after it, that has the type's tag and a key that continues the wanted one
or is continued by it. A node that holds this component is the pointer or comes after it under the
same parent. -/
theorem scan_exact (h : Occurs t g)
    (htags : ∀ id c, g.component? id = some c → c.type.tag = type.tag → c.type = type)
    (key : String) (pointer : Option NodeId) :
    ∃ found, Scans t.document g type key pointer found ∧
      (∀ other, Scans t.document g type key pointer other → other = found) ∧
      findAttached? t.document g type key (t.document.siblingsFrom pointer) = found ∧
      found = (t.document.following pointer).findSome? (offered? t.document type key) ∧
      ∀ id n, found = some id → Holds t.document n id →
        n ∈ t.document.following pointer ∧ ∃ q, pointer = some q ∧ t.document.Ahead q n := by
  obtain ⟨hordered, hlinked⟩ := h.orderly
  have htree := hordered.tree
  refine ⟨_, (scans_iff htree).2 rfl, fun other hother => (scans_iff htree).1 hother, rfl, ?_, ?_⟩
  · rw [findAttached?_siblingsFrom htree, findAttached?_eq_findSome? hlinked htags]
  · intro id n hid hn
    rw [findAttached?_siblingsFrom htree] at hid
    have hmem := mem_of_findAttached? hlinked hid hn
    cases pointer with
    | none => cases hmem
    | some q => exact ⟨hmem, q, rfl, htree.ahead_of_mem hmem⟩

def counterBeside (label : String) (rest : Script) : Script :=
  .component ⟨.counter, .text label, "", "div", "", .opened⟩ .done .done rest

def twoCounters : Act :=
  .pass ⟨"", .null, loggedText, true⟩ (.bracketed 0 .inner .keyed none
    (counterBeside "a" (counterBeside "b" .done)))

/-- From the first of two components, a search by the key of the second one goes on to it. -/
theorem scan_exact_counters : ∃ s, (start .new).perform twoCounters = .ok s ∧
    Scans s.target.document s.registry .counter "1:b" (some 1) (some 1) ∧
    ∀ n, Holds s.target.document n 1 → s.target.document.Ahead 1 n := by
  have hpass : ((start .new).perform twoCounters).toOption.any (fun s =>
      s.registry.components.all (fun c => decide (c.type = .counter)) &&
        decide (findAttached? s.target.document s.registry .counter "1:b"
          (s.target.document.siblingsFrom (some 1)) = some 1)) = true := by decide +kernel
  have hroot : (start .new).Addresses twoCounters := rfl
  obtain ⟨s, hs, hsome⟩ := exists_ok_of_any hpass
  rw [Bool.and_eq_true, decide_eq_true_eq] at hsome
  obtain ⟨hall, hfound⟩ := hsome
  have htypes : ∀ id c, s.registry.component? id = some c → c.type.tag = ComponentType.counter.tag →
      c.type = .counter := by
    intro id c hc _
    exact of_decide_eq_true (Array.all_eq_true'.1 hall c (Array.mem_of_getElem? hc))
  obtain ⟨found, hscans, -, hresult, -, hplaces⟩ :=
    scan_exact (.between (.act .start hroot hs)) htypes "1:b" (some 1)
  obtain rfl : some 1 = found := hfound.symm.trans hresult
  refine ⟨s, hs, hscans, fun n hn => ?_⟩
  obtain ⟨-, q, hq, hahead⟩ := hplaces 1 n rfl hn
  cases hq
  exact hahead

end KeyedRender.Session

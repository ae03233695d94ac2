import KeyedRender.Proofs.Script.Blobs
import KeyedRender.Proofs.Session.Guarded
import KeyedRender.Proofs.Session.Skipped

/-!
# Recorded markup of a session

Printing markup goes by what is recorded of an element, and not by what is in it. The record can be
trusted at every step of every pass, also of those that fail, unless a script has written markup
straight into this element; no script does that whose steps all go through the renderer.
-/
namespace KeyedRender

open RenderM

def Act.IsIndirect : Act → Prop
  | .pass _ plan => plan.All Instruction.IsIndirect
  | _ => True

namespace Session

variable {s : Session KeyedDom} {id : NodeId}

theorem Reached.recorded (h : Reached (Avoids (Moment.fills id)) s) :
    s.target.document.Recorded id :=
  h.guarded (guard_recorded id)
    (Document.KeepsMarkup.reshaping.toRestructuring.keeping Document.KeepsMarkup.recorded)
    (Document.recorded_single id "body")

/-- If no pass before has written markup straight into a node, and nor has this one up to a step,
then what is recorded of the node at the step, if it is an element, is its raw markup. So whatever
markup is printed there is the raw markup of the node, if it is opened for it, and it is written if
and only if the raw markup of the node was different. Passes over roots that are there do print
it. -/
theorem blobs_recorded (h : Reached (Avoids (Moment.fills id)) s) :
    s.target.document.Recorded id ∧
    ∀ a before m after, s.momentsOf a = before ++ m :: after →
      (∀ m ∈ before, m.fills id = false) →
      m.state.renderer.pass.target.document.Recorded id ∧
      (m.state.renderer.layers = [] → ∀ markup, needsMarkup markup = true → ∀ v,
        openElement "html-blob" "" m.context m.state = .done (some id) v →
        (∀ u, print (.sanitizedHtml markup) m.context m.state = .done () u →
          u.renderer.pass.target.document.raw? id = some markup ∧
          u.renderer.pass.target.markupWrites = m.state.renderer.pass.target.markupWrites +
            if m.state.renderer.pass.target.document.raw? id = some markup then 0 else 1) ∧
        (Reached Addresses s → s.Addresses a →
          ∃ u, print (.sanitizedHtml markup) m.context m.state = .done () u)) := by
  refine ⟨h.recorded, fun a before m after hsplit hfree => ?_⟩
  have hrecorded := guarded_of_momentsOf (guard_recorded id) h.recorded hsplit hfree
  refine ⟨hrecorded, fun hl markup hmarkup v hopen => ⟨fun u hprint => ?_, fun haddr ha => ?_⟩⟩
  · obtain ⟨t, closed, hwrite, hclose⟩ := print_done hl hmarkup hopen hprint
    exact KeyedDom.printed hrecorded (openElement_blob hl hopen).2 hwrite hclose
  · obtain ⟨ctx, -, hscripted⟩ := scripted_momentsOf haddr.orderly ha
    obtain ⟨hordered, -⟩ := hscripted.holds orderly_calls m (hsplit ▸ List.mem_append_cons_self)
    exact print_run hl hmarkup hopen hordered

theorem avoids_of_isIndirect {a : Act} (h : a.IsIndirect) : s.Avoids (Moment.fills id) a := by
  cases a with
  | pass settings plan =>
    intro m hm
    simp [Moment.fills, Moment.filled?_of_isIndirect (fits_of_momentsOf h m hm)]
  | _ => exact fun m hm => absurd hm List.not_mem_nil

theorem Reached.avoids (h : Reached (fun _ a => a.IsIndirect) s) :
    Reached (Avoids (Moment.fills id)) s := by
  induction h with
  | start => exact .start
  | act _ ha hs ih => exact .act ih (avoids_of_isIndirect ha) hs

/-- Recorded markup is never stale. If the scripts of all passes go through the renderer, then what
is recorded of any element is its raw markup, also in the middle of a pass that goes on. Whatever
markup is printed then is the raw markup of the element that is opened for it, and it is written if
and only if the raw markup of the element was different. Passes over roots that are there do print
it. -/
theorem blobs_fresh (h : Reached (fun _ a => a.IsIndirect) s) :
    (∀ id, s.target.document.Recorded id) ∧
    ∀ a, a.IsIndirect → ∀ m ∈ s.momentsOf a,
      (∀ id, m.state.renderer.pass.target.document.Recorded id) ∧
      (m.state.renderer.layers = [] → ∀ markup, needsMarkup markup = true → ∀ id v,
        openElement "html-blob" "" m.context m.state = .done (some id) v →
        (∀ u, print (.sanitizedHtml markup) m.context m.state = .done () u →
          u.renderer.pass.target.document.raw? id = some markup ∧
          u.renderer.pass.target.markupWrites = m.state.renderer.pass.target.markupWrites +
            if m.state.renderer.pass.target.document.raw? id = some markup then 0 else 1) ∧
        (Reached Addresses s → s.Addresses a →
          ∃ u, print (.sanitizedHtml markup) m.context m.state = .done () u)) := by
  refine ⟨fun id => h.avoids.recorded, fun a ha m hm => ?_⟩
  obtain ⟨before, after, hsplit⟩ := List.append_of_mem hm
  have hfree : ∀ id, ∀ m' ∈ before, m'.fills id = false := fun id m' hm' =>
    avoids_of_isIndirect ha m' (hsplit ▸ List.mem_append_left _ hm')
  have hblobs := fun id => (blobs_recorded h.avoids).2 a before m after hsplit (hfree id)
  exact ⟨fun id => (hblobs id).1, fun hl markup hmarkup id => (hblobs id).2 hl markup hmarkup⟩

def printPass (markup : String) : Act :=
  .pass ⟨"", .null, loggedText, true⟩ (.bracketed 0 .inner .keyed none
    (.step (.print (.sanitizedHtml markup)) .done))

/-- In a second pass the same markup is not written again, and other markup is. -/
theorem blobs_fresh_twice : ∃ s m rest u u',
    (start .new).perform (printPass "<b>x</b>") = .ok s ∧
    s.momentsOf (printPass "<i>y</i>") = m :: rest ∧
    m.state.renderer.pass.target.markupWrites = 1 ∧
    print (.sanitizedHtml "<b>x</b>") m.context m.state = .done () u ∧
    u.renderer.pass.target.document.raw? 1 = some "<b>x</b>" ∧
    u.renderer.pass.target.markupWrites = 1 ∧
    print (.sanitizedHtml "<i>y</i>") m.context m.state = .done () u' ∧
    u'.renderer.pass.target.document.raw? 1 = some "<i>y</i>" ∧
    u'.renderer.pass.target.markupWrites = 2 := by
  have hindirect : ∀ markup, (printPass markup).IsIndirect := fun _ => ⟨trivial, trivial⟩
  have hruns : ((start .new).perform (printPass "<b>x</b>")).toOption.any (fun s =>
      s.target.document.isLive 0 &&
      (s.momentsOf (printPass "<i>y</i>")).head?.any fun m =>
        m.state.renderer.layers.isEmpty &&
        (openElement "html-blob" "" m.context m.state).yields (some 1) &&
        decide (m.state.renderer.pass.target.document.raw? 1 = some "<b>x</b>") &&
        decide (m.state.renderer.pass.target.markupWrites = 1)) = true := by decide +kernel
  obtain ⟨s, hs, hruns⟩ := exists_ok_of_any hruns
  simp only [Bool.and_eq_true, Option.any_eq_true, List.head?_eq_some_iff, List.isEmpty_iff,
    decide_eq_true_eq] at hruns
  obtain ⟨hroot, m, ⟨rest, hms⟩, ⟨⟨hl, hopens⟩, hraw⟩, hwrites⟩ := hruns
  obtain ⟨v, hopen⟩ := Outcome.done_of_yields hopens
  obtain ⟨-, hprints⟩ := (blobs_fresh (.act .start (hindirect _) hs)).2 (printPass "<i>y</i>")
    (hindirect _) m (by rw [hms]; exact List.mem_cons_self ..)
  have hstart : (start .new).Addresses (printPass "<b>x</b>") := rfl
  have haddr : Reached Addresses s := .act .start hstart hs
  obtain ⟨hsame, hruns⟩ := hprints hl "<b>x</b>" (by decide) 1 v hopen
  obtain ⟨u, hu⟩ := hruns haddr hroot
  obtain ⟨hraw₁, hwrites₁⟩ := hsame u hu
  obtain ⟨hother, hruns'⟩ := hprints hl "<i>y</i>" (by decide) 1 v hopen
  obtain ⟨u', hu'⟩ := hruns' haddr hroot
  obtain ⟨hraw₂, hwrites₂⟩ := hother u' hu'
  refine ⟨s, m, rest, u, u', hs, hms, hwrites, hu, hraw₁, ?_, hu', hraw₂, ?_⟩
  · rw [hwrites₁, hwrites, if_pos hraw]
  · rw [hwrites₂, hwrites, hraw, if_neg (by decide)]

end Session

end KeyedRender

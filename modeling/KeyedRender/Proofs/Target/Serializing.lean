import KeyedRender.Proofs.Document.Spelling
import KeyedRender.Proofs.Script.Outline
import KeyedRender.Proofs.Target.Writing

/-!
# The markup target writes outlines

A written step does to a markup target what it says: it assigns attributes to the element that is
open, or puts the trees it stands for behind its children. So does a whole outline, by recursion on
its tree, with the elements around it left open.
-/
namespace KeyedRender

theorem Triple.bind_eq {τ α β : Type} {x : Exits τ} {P Q : Condition τ} {Q' : β → Condition τ}
    {m : RenderM τ α} {next : α → RenderM τ β} {answer : α}
    (hm : Triple x P m fun a t g => a = answer ∧ Q t g) (hn : Triple x Q (next answer) Q') :
    Triple x P (m >>= next) Q' :=
  .bind hm fun a => .assuming (fun _ _ h => h.1) fun ha => by
    subst ha
    exact hn.pre fun _ _ h => h.2

namespace MarkupWriter

open Document (Tip Writes)
open Markup (Tree)

variable {d : Document} {top : NodeId} {outer : List NodeId} {e : Element}

section Steps

variable (w : MarkupWriter)

theorem emit?_step (call : TargetCall) :
    Triple (.sure MarkupWriter) (fun w' _ => w' = w) (RenderM.emit? call) fun answer w' _ =>
      answer = (w.step call).1 ∧ w' = (w.step call).2 := by
  refine .emit? (fun _ t g ht => ?_) fun hn => absurd rfl hn
  subst ht
  exact ⟨rfl, rfl⟩

theorem emit_step (call : TargetCall) :
    Triple (.sure MarkupWriter) (fun w' _ => w' = w) (RenderM.emit call) fun _ w' _ =>
      w' = (w.step call).2 :=
  .bind (emit?_step w call) fun _ => .pure fun _ _ h => h.2

theorem current?_step :
    Triple (.sure MarkupWriter) (fun w' _ => w' = w) RenderM.current? fun answer w' _ =>
      answer = w.current? ∧ w' = w := by
  rintro ctx s hl hw
  have hlayers : s.renderer.layers = [] := List.eq_nil_of_length_eq_zero hl
  have htarget : s.renderer.target? = some w := by simp [Renderer.target?, hlayers, hw]
  exact ⟨hl, congrArg (Option.bind · RenderTarget.current?) htarget, hw⟩

theorem targetDocument_step :
    Triple (.sure MarkupWriter) (fun w' _ => w' = w) RenderM.targetDocument fun answer w' _ =>
      answer = w.document ∧ w' = w := by
  rintro ctx s hl hw
  exact ⟨hl, congrArg MarkupWriter.document hw, hw⟩

theorem changeRecord_step (node : NodeId) (change : NodeRecord → NodeRecord) :
    Triple (.sure MarkupWriter) (fun w' _ => w' = w) (RenderM.changeRecord node change)
      fun _ w' _ => w' = w.setDocument (w.document.updateRecord node change) := by
  rintro ctx s hl hw
  exact ⟨hl, congrArg (fun w => setDocument w (w.document.updateRecord node change)) hw⟩

def setBlob (markup : String) (e : Element) : Element :=
  { e with raw := some markup, record := { e.record with blob := some markup } }

theorem writeBlob_step (node : NodeId) (markup : String)
    (hnode : w.document.record? node = some .empty) :
    Triple (.sure MarkupWriter) (fun w' _ => w' = w) (RenderM.writeBlob node markup)
      fun _ w' _ => w' = w.setDocument (w.document.updateElement node (setBlob markup)) := by
  refine .bind_eq (targetDocument_step w) ?_
  have hunwritten : ((w.document.record? node).bind NodeRecord.blob) ≠ some markup := by
    simp [hnode, NodeRecord.empty]
  rw [if_pos hunwritten]
  refine .bind (emit_step w _) fun _ => (changeRecord_step _ node _).post fun _ w' _ hw => ?_
  rw [hw]
  exact congrArg w.setDocument (Document.updateElement_updateElement ..)

theorem openElement_step (name key : String) :
    Triple (.sure MarkupWriter) (fun w' _ => w' = w) (RenderM.openElement name key)
      fun answer w' _ => answer = some w.document.size ∧ w' = (w.openElement name).2 := by
  refine .bind_renderer fun r _ => ?_
  exact ((emit?_step w _).pre fun _ _ h => h.2).post fun _ _ _ h => h

theorem setAttribute_step (name value : String) :
    Triple (.sure MarkupWriter) (fun w' _ => w' = w) (RenderM.setAttribute name value)
      fun _ w' _ => w' = w.setAttribute name value := by
  refine .bind (emit_step w _) fun _ => ?_
  split
  · exact emit_step _ _
  · split
    · exact emit_step _ _
    · exact .pure fun _ _ h => h

end Steps

theorem document_append (he : d.element? top = some e) (content : Content) :
    (MarkupWriter.append ⟨d, top :: outer⟩ content).2 =
      ⟨d.adopt top e.children.length content, top :: outer⟩ := by
  have h := document_appendTo (w := ⟨d, top :: outer⟩) he content
  rw [← h]
  rfl

theorem openElement_eq (he : d.element? top = some e) (name : String) :
    (MarkupWriter.openElement ⟨d, top :: outer⟩ name).2 =
      ⟨d.adopt top e.children.length (.element (.new name "")), d.size :: top :: outer⟩ := by
  have h : (MarkupWriter.append ⟨d, top :: outer⟩ (.element (.new name ""))).2 = _ :=
    document_append he _
  exact congrArg (fun w : MarkupWriter => { w with opened := d.size :: top :: outer }) h

def Wrote (d : Document) (top : NodeId) (outer : List NodeId) (settings : List (String × String))
    (trees : List Tree) : Condition MarkupWriter := fun w _ =>
  ∃ d', d.Writes top settings trees d' ∧ w = ⟨d', top :: outer⟩

theorem Wrote.append (hd : d.Tip top) {content : Content} {tree : Tree}
    (hcontent : ∀ e, content ≠ .element e)
    (hspells : ∀ d' : Document, d'.content? d.size = some content →
      d'.Spells d.size [d.size] [tree]) (g : Registry) :
    Wrote d top outer [] [tree] (MarkupWriter.append ⟨d, top :: outer⟩ content).2 g := by
  obtain ⟨e, he⟩ := hd.element
  exact ⟨_, .leaf hd he hcontent hspells, document_append he content⟩

theorem Wrote.appendText (hd : d.Tip top) (value : String) (g : Registry) :
    Wrote d top outer [] [.text value]
      (MarkupWriter.append ⟨d, top :: outer⟩ (.text value)).2 g :=
  .append hd (by simp) (fun _ hc => .text (Nat.le_refl _) hc .nil) g

theorem Wrote.setAttributes (hd : d.Tip top) (attributes : List (String × String))
    (g : Registry) : Wrote d top outer attributes []
      (attributes.foldl (fun w (name, value) => w.setAttribute name value)
        (⟨d, top :: outer⟩ : MarkupWriter)) g := by
  induction attributes generalizing d with
  | nil => exact ⟨d, hd.writes_nil, rfl⟩
  | cons a rest ih =>
    have hfirst := Writes.setAttribute hd a.1 a.2
    obtain ⟨d', hrest, heq⟩ := ih (hfirst.tip hd)
    exact ⟨d', hfirst.trans hrest, heq⟩

section Performed

variable (hd : d.Tip top)

include hd

theorem text_wrote (value : String) :
    Triple (.sure MarkupWriter) (fun w _ => w = ⟨d, top :: outer⟩) (RenderM.text value)
      fun _ => Wrote d top outer [] [.text value] := by
  refine (emit?_step ⟨d, top :: outer⟩ (.text value)).post fun _ w g h => ?_
  rw [h.2]
  exact .appendText hd value g

theorem comment_wrote (value : String) :
    Triple (.sure MarkupWriter) (fun w _ => w = ⟨d, top :: outer⟩) (RenderM.comment value)
      fun _ => Wrote d top outer [] [.comment value] := by
  obtain ⟨e, he⟩ := hd.element
  -- Nothing comes after the element that is open, so that no comment is written again.
  have hnone : (d.nextSibling? top).filter d.isComment = none := by rw [hd.last]; rfl
  refine .bind_eq (current?_step _) (.bind_eq (targetDocument_step _) ?_)
  simp only [hnone]
  refine .bind (emit_step _ _) fun _ => (emit_step _ _).post fun _ w g hw => ?_
  subst hw
  have happended : Wrote d top outer [] [.comment value]
      (MarkupWriter.appendTo ⟨d, top :: outer⟩ (some top) (.comment value)).2 g :=
    .append hd (by simp) (fun _ hc => .comment (Nat.le_refl _) hc .nil) g
  simpa only [step, appendComment, he, Option.isSome_some, if_true] using happended

theorem blob_wrote (markup : String) :
    Triple (.sure MarkupWriter) (fun w _ => w = ⟨d, top :: outer⟩) (do
      let blob ← RenderM.openElement "html-blob" ""
      match blob with
      | some node => RenderM.writeBlob node markup
      | none => pure ()
      RenderM.emit .skip
      RenderM.emit .closeElement)
      fun _ => Wrote d top outer [] [.element "html-blob" [] (some markup) []] := by
  obtain ⟨e, he⟩ := hd.element
  have hnew : (d.adopt top e.children.length (.element (.new "html-blob" ""))).record?
      d.size = some .empty := by
    rw [Document.record?, Document.element?_adopt_new he]
    rfl
  have hraw : d.Writes top [] [.element "html-blob" [] (some markup) []]
      ((d.adopt top e.children.length (.element (.new "html-blob" ""))).updateElement
        d.size (setBlob markup)) := .raw hd he fun _ => ⟨rfl, rfl, rfl, rfl⟩
  refine .bind_eq (openElement_step _ _ _) ?_
  rw [openElement_eq he]
  refine .bind (writeBlob_step _ d.size markup hnew) fun _ => .bind (emit_step _ .skip) fun _ => ?_
  exact (emit_step _ .closeElement).post fun _ w g hw => ⟨_, hraw, hw⟩

theorem print_wrote (value : Printable) :
    Triple (.sure MarkupWriter) (fun w _ => w = ⟨d, top :: outer⟩) (RenderM.print value)
      fun _ => Wrote d top outer [] [printedTree value] := by
  have hcontent : ∀ value, Triple (.sure MarkupWriter) (fun w _ => w = ⟨d, top :: outer⟩)
      (RenderM.printContent value) fun _ => Wrote d top outer [] [.text (RenderM.printedText value)] :=
    fun value => .bind (text_wrote hd _) fun _ => .pure fun _ _ h => h
  cases value with
  | sanitizedHtml markup =>
    simp only [RenderM.print, printedTree]
    split
    · exact blob_wrote hd markup
    · exact hcontent (.text markup)
  | _ => exact hcontent _

theorem quiet_wrote {α : Type} {m : RenderM MarkupWriter α} (hm : Quiet m) :
    Triple (.sure MarkupWriter) (fun w _ => w = ⟨d, top :: outer⟩) m fun _ => Wrote d top outer [] [] :=
  hm.triple.post fun _ _ _ hw => ⟨d, hd.writes_nil, hw⟩

theorem perform_wrote {i : Instruction} (hi : i.IsWritten) :
    Triple (.sure MarkupWriter) (fun w _ => w = ⟨d, top :: outer⟩) i.perform
      fun _ => Wrote d top outer i.settings i.trees := by
  cases i with
  | text value => exact .bind (text_wrote hd value) fun _ => .pure fun _ _ h => h
  | comment value => exact .bind (comment_wrote hd value) fun _ => .pure fun _ _ h => h
  | print value => exact .bind (print_wrote hd value) fun _ => .pure fun _ _ h => h
  | setAttribute name value =>
    have hwrites := Writes.setAttribute hd name value
    exact .bind (setAttribute_step _ name value) fun _ => .pure fun _ _ hw => ⟨_, hwrites, hw⟩
  | applyStatics attributes =>
    refine .bind (emit_step _ _) fun _ => .pure fun _ g hw => ?_
    rw [hw]
    exact .setAttributes hd attributes g
  | applyAttributes =>
    exact .bind (emit_step _ _) fun _ => .pure fun _ _ hw => ⟨d, hd.writes_nil, hw⟩
  | pushKey fragment =>
    exact quiet_wrote hd ((Quiet.pushKey fragment).bind fun _ => (Quiet.saveKey _).bind fun _ => .pure)
  | popKey previous => exact quiet_wrote hd (Draws.popKey previous)
  | newKey fragment => exact quiet_wrote hd (Quiet.renderer.bind fun _ => .pure)
  | currentKey => exact quiet_wrote hd (Quiet.renderer.bind fun _ => .pure)
  | pushManualKey fragment => exact quiet_wrote hd ((Quiet.pushManualKey fragment).bind fun _ => .pure)
  | popManualKey => exact quiet_wrote hd (Quiet.popManualKey.bind fun _ => .pure)
  | _ => exact hi.elim

theorem run_outline {o : Outline} (ho : o.IsWritten) {after : Script}
    {Q : Unit → Condition MarkupWriter}
    (hafter : ∀ d', d.Writes top o.settings o.trees d' →
      Triple (.sure MarkupWriter) (fun w _ => w = ⟨d', top :: outer⟩) (after.run MarkupWriter) Q) :
    Triple (.sure MarkupWriter) (fun w _ => w = ⟨d, top :: outer⟩)
      ((o.script after).run MarkupWriter) Q := by
  induction o generalizing d top outer after with
  | done => exact hafter d hd.writes_nil
  | step i next ih =>
    refine .bind (perform_wrote hd ho.1) fun answer => .bind (Quiet.answer _ answer).triple
      fun _ ctx s hl => ?_
    rintro ⟨d', hstep, hw⟩
    exact ih (hstep.tip hd) ho.2 (fun d'' hnext => hafter d'' (hstep.trans hnext)) ctx s hl hw
  | element name key inner next hinner hnext =>
    obtain ⟨e, he⟩ := hd.element
    have hopen : Triple (.sure MarkupWriter) (fun w _ => w = ⟨d, top :: outer⟩)
        (Instruction.perform (.openElement name key)) fun _ w _ =>
          w = (MarkupWriter.openElement ⟨d, top :: outer⟩ name).2 :=
      .bind (openElement_step _ name key) fun _ => .pure fun _ _ h => h.2
    refine .bind hopen fun answer => .bind (Quiet.answer _ answer).triple fun _ => ?_
    rw [openElement_eq he]
    refine hinner (hd.adopt he name) ho.1 fun d' hwritten => ?_
    -- The end tag leaves the element, with its tree behind the children of the one around it.
    have helement := Writes.element he hwritten
    rw [assignEach_nil] at helement
    have hclose : Triple (.sure MarkupWriter) (fun w _ => w = ⟨d', d.size :: top :: outer⟩)
        (Instruction.perform .closeElement) fun _ w _ => w = ⟨d', top :: outer⟩ :=
      .bind (emit?_step _ .closeElement) fun _ => .pure fun _ _ h => h.2
    refine .bind hclose fun answer => .bind (Quiet.answer _ answer).triple fun _ => ?_
    exact hnext (helement.tip hd) ho.2 fun d'' hrest => hafter d'' (helement.trans hrest)

end Performed

end MarkupWriter

end KeyedRender

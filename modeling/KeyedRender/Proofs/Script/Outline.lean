import KeyedRender.Document.Markup
import KeyedRender.Proofs.Document.Idle
import KeyedRender.Proofs.Script.Distinct
import KeyedRender.Proofs.Script.Sketch

/-!
# The markup of a script

A script that closes what it opens is a tree: each element has the steps up to its end tag inside
of it. Read from its end, the steps of a script fall to the elements that are open there. The markup
of the tree is written down by recursion on it, without nodes and without a stack.
-/
namespace KeyedRender

open Markup (Tree escape startTag endTag voidElements)

section Settled

variable {settings : List (String × String)} {name value : String}

/-- The value that a name was set to last. -/
def lastValue (settings : List (String × String)) (name : String) : String :=
  (settings.reverse.lookup name).getD ""

/-- Each name that was set, in order of first setting, with the value set last. -/
def settled (settings : List (String × String)) : List (String × String) :=
  (settings.map Prod.fst).eraseDups.map fun name => (name, lastValue settings name)

theorem lastValue_concat_self : lastValue (settings ++ [(name, value)]) name = value := by
  simp [lastValue]

theorem lastValue_concat_ne {other : String} (h : other ≠ name) :
    lastValue (settings ++ [(name, value)]) other = lastValue settings other := by
  simp [lastValue, List.lookup_cons, beq_eq_false_iff_ne.2 h]

theorem assign_map_of_mem {names : List String} (hnames : names.Nodup) (hname : name ∈ names)
    {f g : String → String} (hself : g name = value)
    (hne : ∀ other, other ≠ name → g other = f other) :
    assign name value (names.map fun n => (n, f n)) = names.map fun n => (n, g n) := by
  induction names with
  | nil => cases hname
  | cons first rest ih =>
    obtain ⟨hfirst, hrest⟩ := List.nodup_cons.1 hnames
    by_cases h : first = name
    · subst h
      have hsame : (rest.map fun n => (n, f n)) = rest.map fun n => (n, g n) :=
        List.map_congr_left fun n hn => by rw [hne n fun heq => hfirst (heq ▸ hn)]
      simp only [List.map_cons, assign, if_true, hself, hsame]
    · have hmem := (List.mem_cons.1 hname).resolve_left (Ne.symm h)
      simp only [List.map_cons, assign, if_neg h, ih hrest hmem, hne first h]

theorem assign_settled :
    assign name value (settled settings) = settled (settings ++ [(name, value)]) := by
  have hne : ∀ other, other ≠ name →
      lastValue (settings ++ [(name, value)]) other = lastValue settings other :=
    fun _ => lastValue_concat_ne
  simp only [settled, List.map_append, List.map_singleton]
  by_cases hname : name ∈ settings.map Prod.fst
  · rw [eraseDups_concat_of_mem hname]
    exact assign_map_of_mem (nodup_eraseDups _) (List.mem_eraseDups.2 hname) lastValue_concat_self
      hne
  · have hnames : name ∉ (settings.map Prod.fst).eraseDups := fun h =>
      hname (List.mem_eraseDups.1 h)
    have hsame : ((settings.map Prod.fst).eraseDups.map fun n =>
        (n, lastValue (settings ++ [(name, value)]) n)) =
          (settings.map Prod.fst).eraseDups.map fun n => (n, lastValue settings n) :=
      List.map_congr_left fun n hn => by rw [hne n fun heq => hnames (heq ▸ hn)]
    rw [eraseDups_concat_of_notMem hname, List.map_append, List.map_singleton, hsame,
      lastValue_concat_self]
    exact assign_of_notMem (by simpa using hnames)

theorem assignEach_nil (settings : List (String × String)) :
    assignEach settings [] = settled settings := by
  induction settings using List.reverseRecOn with
  | nil => rfl
  | append_singleton rest a ih =>
    rw [assignEach_append, ih]
    exact assign_settled

end Settled

/-- A script without blocks and components, as a tree. -/
inductive Outline
  | done
  | step (instruction : Instruction) (next : Outline)
  | element (name key : String) (inner next : Outline)

def Instruction.settings : Instruction → List (String × String)
  | .setAttribute name value => [(name, value)]
  | .applyStatics attributes => attributes
  | _ => []

def printedMarkup : Printable → List Char
  | .sanitizedHtml markup =>
    if RenderM.needsMarkup markup then
      startTag "html-blob" [] ++ markup.toList ++ endTag "html-blob"
    else escape .content markup.toList
  | value => escape .content (RenderM.printedText value).toList

def printedTree : Printable → Tree
  | .sanitizedHtml markup =>
    if RenderM.needsMarkup markup then .element "html-blob" [] (some markup) [] else .text markup
  | value => .text (RenderM.printedText value)

def Instruction.trees : Instruction → List Tree
  | .text value => [.text value]
  | .comment value => [.comment value]
  | .print value => [printedTree value]
  | _ => []

def Instruction.markup : Instruction → List Char
  | .text value => escape .content value.toList
  | .comment value => "<!--".toList ++ value.toList ++ "-->".toList
  | .print value => printedMarkup value
  | _ => []

namespace Outline

def settings : Outline → List (String × String)
  | done => []
  | step i next => i.settings ++ next.settings
  | element _ _ _ next => next.settings

def markup : Outline → List Char
  | done => []
  | step i next => i.markup ++ next.markup
  | element name _ inner next =>
    startTag name (settled inner.settings) ++
      (if name ∈ voidElements then [] else inner.markup ++ endTag name) ++ next.markup

def trees : Outline → List Tree
  | done => []
  | step i next => i.trees ++ next.trees
  | element name _ inner next =>
    .element name (settled inner.settings) none inner.trees :: next.trees

def script : Outline → Script → Script
  | done, after => after
  | step i next, after => .step i (next.script after)
  | element name key inner next, after =>
    .step (.openElement name key) (inner.script (.step .closeElement (next.script after)))

end Outline

section Markup

theorem Markup.Tree.outerAll_append (trees more : List Tree) :
    Tree.outerAll (trees ++ more) = Tree.outerAll trees ++ Tree.outerAll more := by
  induction trees with
  | nil => rfl
  | cons first rest ih => simp only [List.cons_append, Tree.outerAll, ih, List.append_assoc]

theorem Instruction.outerAll_trees (i : Instruction) : Tree.outerAll i.trees = i.markup := by
  have hblob : "html-blob" ∉ voidElements := by decide
  cases i with
  | print value =>
    cases value with
    | sanitizedHtml markup =>
      simp only [trees, Instruction.markup, printedTree, printedMarkup]
      split <;> simp [Tree.outerAll, Tree.outer, hblob]
    | _ =>
      simp only [trees, Instruction.markup, printedTree, printedMarkup, Tree.outerAll, Tree.outer,
        List.append_nil]
  | text value => exact List.append_nil _
  | comment value => exact List.append_nil _
  | _ => rfl

theorem Outline.outerAll_trees (o : Outline) : Tree.outerAll o.trees = o.markup := by
  induction o with
  | done => rfl
  | step i next ih =>
    rw [trees, Markup.Tree.outerAll_append, i.outerAll_trees, ih, Outline.markup]
  | element name key inner next hinner hnext =>
    rw [trees, Tree.outerAll, Tree.outer, hinner, hnext, Outline.markup]

end Markup

/-- The trees of what a script does to each element that is open before it, the innermost first. -/
def Script.outlines : Script → List Outline
  | .step (.openElement name key) next =>
    match next.outlines with
    | inner :: rest :: outer => .element name key inner rest :: outer
    | short => short
  | .step .closeElement next => .done :: next.outlines
  | .step i next =>
    match next.outlines with
    | first :: outer => .step i first :: outer
    | [] => []
  | _ => [.done]

def Script.outline (script : Script) : Outline := script.outlines.headD .done

/-- A step that writes content and sets attributes, or works on the keys. -/
def Instruction.IsWritten : Instruction → Prop
  | .comment _ => True
  | .print _ => True
  | i => i.IsPlain

/-- A script of written steps that closes every element that it opens, and a number of open ones. -/
inductive Script.Closes : Nat → Script → Prop
  | done : Closes 0 .done
  | opening {depth : Nat} {next : Script} (name key : String) : Closes (depth + 1) next →
      Closes depth (.step (.openElement name key) next)
  | closing {depth : Nat} {next : Script} : Closes depth next →
      Closes (depth + 1) (.step .closeElement next)
  | written {depth : Nat} {next : Script} {i : Instruction} : i.IsWritten → Closes depth next →
      Closes depth (.step i next)

def Outline.IsWritten : Outline → Prop
  | done => True
  | step i next => i.IsWritten ∧ next.IsWritten
  | element _ _ inner next => inner.IsWritten ∧ next.IsWritten

def Script.ending : List Outline → Script
  | [] => .done
  | first :: outer => .step .closeElement (first.script (ending outer))

theorem Script.outlines_written {i : Instruction} (hi : i.IsWritten) {next : Script}
    {first : Outline} {outer : List Outline} (h : next.outlines = first :: outer) :
    (Script.step i next).outlines = .step i first :: outer := by
  cases i with
  | openElement name key => exact hi.elim
  | closeElement => exact hi.elim
  | _ => simp only [outlines, h]

/-- A script that closes what it opens is its trees, with end tags between them. -/
theorem Script.Closes.outlines {depth : Nat} {script : Script} (h : script.Closes depth) :
    ∃ first outer, script.outlines = first :: outer ∧ outer.length = depth ∧
      (∀ o ∈ first :: outer, o.IsWritten) ∧ script = first.script (ending outer) := by
  induction h with
  | done => exact ⟨.done, [], rfl, rfl, by simp [Outline.IsWritten], rfl⟩
  | opening name key _ ih =>
    obtain ⟨inner, outer, houtlines, hlength, hwritten, hscript⟩ := ih
    obtain _ | ⟨rest, outer⟩ := outer
    · cases hlength
    obtain ⟨hinner, hrest, houter⟩ : inner.IsWritten ∧ rest.IsWritten ∧
        ∀ o ∈ outer, o.IsWritten := by simpa using hwritten
    refine ⟨.element name key inner rest, outer, by simp only [Script.outlines, houtlines],
      Nat.succ.inj hlength, List.forall_mem_cons.2 ⟨⟨hinner, hrest⟩, houter⟩, ?_⟩
    rw [hscript]
    rfl
  | closing _ ih =>
    obtain ⟨first, outer, houtlines, hlength, hwritten, hscript⟩ := ih
    refine ⟨.done, first :: outer, by simp only [Script.outlines, houtlines],
      congrArg Nat.succ hlength, List.forall_mem_cons.2 ⟨trivial, hwritten⟩, ?_⟩
    rw [hscript]
    rfl
  | written hi _ ih =>
    obtain ⟨first, outer, houtlines, hlength, hwritten, hscript⟩ := ih
    obtain ⟨hfirst, houter⟩ := List.forall_mem_cons.1 hwritten
    refine ⟨_, outer, outlines_written hi houtlines, hlength,
      List.forall_mem_cons.2 ⟨⟨hi, hfirst⟩, houter⟩, ?_⟩
    rw [hscript]
    rfl

theorem Script.Closes.outline {script : Script} (h : script.Closes 0) :
    script.outline.IsWritten ∧ script = script.outline.script .done := by
  obtain ⟨first, outer, houtlines, hlength, hwritten, hscript⟩ := h.outlines
  obtain rfl := List.eq_nil_of_length_eq_zero hlength
  have houtline : script.outline = first := by rw [Script.outline, houtlines]; rfl
  rw [houtline]
  exact ⟨hwritten first (by simp), hscript⟩

end KeyedRender

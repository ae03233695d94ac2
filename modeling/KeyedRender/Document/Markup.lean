import KeyedRender.Document.Basic
import KeyedRender.Markup.Entity

/-!
# The markup of a document

The tree below a node, without numbers and keys, and its markup: start tags with attributes in
order, then raw markup if it was set or else the children, then the end tag. Void elements have
neither content nor end tag.
-/
namespace KeyedRender

namespace Markup

inductive Tree
  | element (name : String) (attributes : List (String × String)) (raw : Option String)
      (children : List Tree)
  | text (value : String)
  | comment (value : String)

def voidElements : List String :=
  ["area", "base", "br", "col", "embed", "hr", "img", "input", "link", "meta", "source", "track",
    "wbr"]

def attributeMarkup (pair : String × String) : List Char :=
  ' ' :: pair.1.toList ++ "=\"".toList ++ escape .value pair.2.toList ++ ['"']

def startTag (name : String) (attributes : List (String × String)) : List Char :=
  '<' :: name.toList ++ attributes.flatMap attributeMarkup ++ ['>']

def endTag (name : String) : List Char := "</".toList ++ name.toList ++ ['>']

namespace Tree

mutual

def outer : Tree → List Char
  | element name attributes raw children =>
    startTag name attributes ++
      if name ∈ voidElements then []
      else
        (match raw with
          | some markup => markup.toList
          | none => outerAll children) ++ endTag name
  | text value => escape .content value.toList
  | comment value => "<!--".toList ++ value.toList ++ "-->".toList

def outerAll : List Tree → List Char
  | [] => []
  | first :: rest => outer first ++ outerAll rest

end

def inner : Tree → List Char
  | element _ _ (some markup) _ => markup.toList
  | element _ _ none children => outerAll children
  | text _ => []
  | comment _ => []

mutual

/-- The text of a tree, leaving out comments and taking raw markup as it is. -/
def textContent : Tree → List Char
  | element _ _ raw children =>
    match raw with
    | some markup => markup.toList
    | none => textContentAll children
  | text value => value.toList
  | comment _ => []

def textContentAll : List Tree → List Char
  | [] => []
  | first :: rest => textContent first ++ textContentAll rest

end

end Tree

end Markup

namespace Document

def treeWithin (d : Document) : Nat → NodeId → Option Markup.Tree
  | 0, _ => none
  | fuel + 1, id =>
    match d.content? id with
    | some (.element e) =>
      some (.element e.name e.attributes e.raw (e.children.filterMap (d.treeWithin fuel)))
    | some (.text value) => some (.text value)
    | some (.comment value) => some (.comment value)
    | none => none

def tree? (d : Document) (id : NodeId) : Option Markup.Tree := d.treeWithin d.size id

def outerMarkup (d : Document) (id : NodeId) : String :=
  String.ofList (((d.tree? id).map Markup.Tree.outer).getD [])

def innerMarkup (d : Document) (id : NodeId) : String :=
  String.ofList (((d.tree? id).map Markup.Tree.inner).getD [])

def textContent (d : Document) (id : NodeId) : String :=
  String.ofList (((d.tree? id).map Markup.Tree.textContent).getD [])

end Document

end KeyedRender

import KeyedRender.Document.Markup
import KeyedRender.Target.Basic

/-!
# The keyed target

A document that is reconciled in place. Each open element has a frame with the number of its
children that were visited. Opening looks for a matching element among the children not yet
visited, moves it into place, or creates a new one; closing removes the children that were not
visited.
-/
namespace KeyedRender

structure Frame where
  parent : NodeId
  index : Nat
deriving DecidableEq

/-- The innermost frame comes first. -/
structure KeyedDom where
  document : Document
  frames : List Frame
  mode : PatchMode
  rule : Key.MatchRule
  created : Nat
  markupWrites : Nat
  commentWrites : Nat

namespace KeyedDom

def new : KeyedDom := ⟨.single "body", [], .inner, .keyed, 0, 0, 0⟩

def liveNode (t : KeyedDom) (id : NodeId) : Except Fault Node :=
  match t.document.node? id with
  | some n => .ok n
  | none => .error (.deadNode id)

def listedChildren (t : KeyedDom) (id : NodeId) : Except Fault (List NodeId) :=
  match t.document.content? id with
  | some (.element e) => .ok e.children
  | some _ => .error (.notAnElement id)
  | none => .error (.deadNode id)

def setDocument (t : KeyedDom) (d : Document) : KeyedDom := { t with document := d }

@[simp] theorem document_setDocument (t : KeyedDom) (d : Document) :
    (t.setDocument d).document = d := rfl

@[simp] theorem frames_setDocument (t : KeyedDom) (d : Document) :
    (t.setDocument d).frames = t.frames := rfl

def countCreated (t : KeyedDom) : KeyedDom := { t with created := t.created + 1 }

def insertChild (t : KeyedDom) (parent : NodeId) (position : Nat) (content : Content) :
    Except Fault (NodeId × KeyedDom) := do
  let (id, document) := t.document.add (some parent) content
  let children ← (t.setDocument document).listedChildren parent
  if children.length < position then throw (.positionOutOfRange parent position)
  return (id, t.setDocument (document.setChildren parent (children.insertIdx position id)))

/-- Removes the children of a frame's element that were not visited. -/
def dropUnvisited (t : KeyedDom) (frame : Frame) : Except Fault KeyedDom := do
  let children ← t.listedChildren frame.parent
  if children.length < frame.index then
    throw (.positionOutOfRange frame.parent frame.index)
  return t.setDocument ((t.document.setChildren frame.parent (children.take frame.index)).dropAll
    (children.drop frame.index))

def findMatch? (t : KeyedDom) (name key : String) : List NodeId → Except Fault (Option Nat)
  | [] => .ok none
  | id :: rest =>
    match t.document.content? id with
    | none => .error (.deadNode id)
    | some (.element e) =>
      if t.rule.accepts name e.name key e.key then .ok (some 0)
      else (t.findMatch? name key rest).map (Option.map (· + 1))
    | some _ => (t.findMatch? name key rest).map (Option.map (· + 1))

def advance : List Frame → List Frame
  | [] => []
  | frame :: below => { frame with index := frame.index + 1 } :: below

/-- Finds, moves or creates the element to open. -/
def place (t : KeyedDom) (frame : Frame) (name key : String) :
    Except Fault (NodeId × KeyedDom) := do
  let children := t.document.children frame.parent
  match ← t.findMatch? name key (children.drop frame.index) with
  | none =>
    t.countCreated.insertChild frame.parent frame.index (.element (.new name key))
  | some offset =>
    match children[frame.index + offset]? with
    | none => throw (.positionOutOfRange frame.parent (frame.index + offset))
    | some id =>
      let moved := (children.eraseIdx (frame.index + offset)).insertIdx frame.index id
      return (id, t.setDocument (t.document.setChildren frame.parent moved))

def openElement (t : KeyedDom) (name key : String) : Except Fault (Option NodeId × KeyedDom) :=
  match t.frames with
  | [] => .ok (none, t)
  | frame :: _ => do
    let (id, t) ← t.place frame name key
    return (some id, { t with frames := ⟨id, 0⟩ :: advance t.frames })

def closeElement (t : KeyedDom) : Except Fault (Option NodeId × KeyedDom) :=
  match t.frames with
  | frame :: outer :: below => do
    let t ← t.dropUnvisited frame
    return (some frame.parent, { t with frames := outer :: below })
  | _ => .ok (none, t)

def writeText (t : KeyedDom) (value : String) : Except Fault (Option NodeId × KeyedDom) :=
  match t.frames with
  | [] => .ok (none, t)
  | frame :: _ => do
    let (id, t) ← match (t.document.children frame.parent)[frame.index]? with
      | none => t.insertChild frame.parent frame.index (.text value)
      | some id => do
        let n ← t.liveNode id
        match n.content with
        | .text _ => pure (id, t.setDocument (t.document.setContent id (.text value)))
        | _ => t.insertChild frame.parent frame.index (.text value)
    return (some id, { t with frames := advance t.frames })

def changeCurrent (t : KeyedDom) (change : Element → Element) : Except Fault KeyedDom :=
  match t.frames with
  | [] => .ok t
  | frame :: _ => do
    let _ ← t.liveNode frame.parent
    return t.setDocument (t.document.updateElement frame.parent change)

def setAttributes (t : KeyedDom) (attributes : List (String × String)) : Except Fault KeyedDom :=
  attributes.foldlM (fun t (name, value) => t.changeCurrent (Element.setAttribute name value)) t

/-- The frames with the innermost index changed, given the number of children. -/
def skipTo (t : KeyedDom) (target : Nat → Nat → Nat) : KeyedDom :=
  match t.frames with
  | [] => t
  | frame :: below =>
    let count := (t.document.children frame.parent).length
    { t with frames := { frame with index := target frame.index count } :: below }

@[simp] theorem document_skipTo (t : KeyedDom) (target : Nat → Nat → Nat) :
    (t.skipTo target).document = t.document := by
  rw [skipTo]
  split <;> rfl

def setInnerMarkup (t : KeyedDom) (id : NodeId) (markup : String) : Except Fault KeyedDom := do
  let children ← t.listedChildren id
  let document := (t.document.setChildren id []).dropAll children
  return { t with
    document := document.updateElement id fun e => { e with raw := some markup }
    markupWrites := t.markupWrites + 1 }

def setComment (t : KeyedDom) (id : NodeId) (value : String) : KeyedDom :=
  if t.document.isComment id then
    { t with
      document := t.document.setComment id value
      commentWrites := t.commentWrites + 1 }
  else t

@[simp] theorem document_setComment (t : KeyedDom) (id : NodeId) (value : String) :
    (t.setComment id value).document = t.document.setComment id value := by
  rw [setComment]
  split
  · rfl
  · next hid => rw [Document.setComment, if_neg hid]

@[simp] theorem frames_setComment (t : KeyedDom) (id : NodeId) (value : String) :
    (t.setComment id value).frames = t.frames := by
  rw [setComment]
  split <;> rfl

@[simp] theorem mode_setComment (t : KeyedDom) (id : NodeId) (value : String) :
    (t.setComment id value).mode = t.mode := by
  rw [setComment]
  split <;> rfl

def appendComment (t : KeyedDom) (parent : NodeId) (value : String) :
    Except Fault (Option NodeId × KeyedDom) :=
  match t.document.element? parent with
  | none => .ok (none, t)
  | some e => do
    let (id, t) ← t.countCreated.insertChild parent e.children.length (.comment value)
    return (some id, t)

/-- The frame that a pass starts in. -/
def firstFrame (t : KeyedDom) (root : NodeId) : PatchMode → Except Fault Frame
  | .inner => .ok ⟨root, 0⟩
  | .outer => do
    let n ← t.liveNode root
    match n.parent with
    | none => throw (.rootWithoutParent root)
    | some parent =>
      match (t.document.children parent).findIdx? (· = root) with
      | none => throw (.notListed root)
      | some index => return ⟨parent, index⟩

def beginPatch (t : KeyedDom) (root : NodeId) (mode : PatchMode) (rule : Key.MatchRule) :
    Except Fault KeyedDom := do
  let frame ← t.firstFrame root mode
  return { t with frames := [frame], mode := mode, rule := rule }

def endPatch (t : KeyedDom) : Except Fault KeyedDom := do
  let t ← match t.frames, t.mode with
    | [frame], .inner => t.dropUnvisited frame
    | _, _ => pure t
  return { t with frames := [] }

def apply : TargetCall → KeyedDom → Except Fault (Option NodeId × KeyedDom)
  | .beginPatch root mode rule, t => (t.beginPatch root mode rule).map (none, ·)
  | .endPatch, t => t.endPatch.map (none, ·)
  | .openElement name key, t => t.openElement name key
  | .closeElement, t => t.closeElement
  | .text value, t => t.writeText value
  | .setAttribute name value, t => (t.setAttributes [(name, value)]).map (none, ·)
  | .setProperty name value, t =>
    (t.changeCurrent (Element.setProperty name value.toText)).map (none, ·)
  | .skip, t => .ok (none, t.skipTo fun _ count => count)
  | .skipNode, t => .ok (none, t.skipTo fun index count => min (index + 1) count)
  | .applyAttributes, t => .ok (none, t)
  | .applyStatics attributes, t => (t.setAttributes attributes).map (none, ·)
  | .setInnerMarkup id markup, t => (t.setInnerMarkup id markup).map (none, ·)
  | .setComment id value, t => .ok (none, t.setComment id value)
  | .appendComment parent value, t => t.appendComment parent value

def pointer? (t : KeyedDom) : Option NodeId :=
  t.frames.head?.bind fun frame => (t.document.children frame.parent)[frame.index]?

def current? (t : KeyedDom) : Option NodeId := t.frames.head?.map Frame.parent

/-- Raw markup is content too. -/
def hasContent (t : KeyedDom) (id : NodeId) : Except Fault Bool :=
  if !(t.document.children id).isEmpty then .ok true
  else do
    let n ← t.liveNode id
    match n.content with
    | .element e => return e.raw.isSome
    | _ => return false

def describe (t : KeyedDom) (id : NodeId) : Except Fault String := do
  let n ← t.liveNode id
  match n.content with
  | .element e =>
    return "<" ++ e.name ++ " key=" ++ String.ofList (Text.quoted '"' e.key.toList) ++ ">" ++
      t.document.textContent id ++ "</" ++ e.name ++ ">"
  | .comment value => return "<!--" ++ value ++ "-->"
  | .text value => return value

instance : RenderTarget KeyedDom where
  apply := apply
  document := KeyedDom.document
  withDocument := setDocument
  pointer? := pointer?
  current? := current?
  hasContent := hasContent
  describe := describe

def append (t : KeyedDom) (parent : NodeId) (content : Content) :
    Except Fault (NodeId × KeyedDom) :=
  t.insertChild parent (t.document.children parent).length content

def remove (t : KeyedDom) (id : NodeId) : Except Fault KeyedDom := do
  match t.document.parent? id with
  | none => return t.setDocument (t.document.dropAll [id])
  | some parent =>
    let children ← t.listedChildren parent
    return t.setDocument
      ((t.document.setChildren parent (children.filter (· ≠ id))).dropAll [id])

end KeyedDom

end KeyedRender

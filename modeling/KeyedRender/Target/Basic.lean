import KeyedRender.Error
import KeyedRender.Key.Matching

/-!
# Render targets

A target owns a document and changes it call by call, in document order: an element is opened,
gets attributes and children, and is closed. The calls that change a target are data, so that a
log can hold them; what only reads is a function. The record of an element is changed by the
renderer itself.
-/
namespace KeyedRender

/-- Whether a pass renders the children of its root or the root itself. -/
inductive PatchMode
  | inner
  | outer
deriving DecidableEq

inductive PropertyValue
  | flag (value : Bool)
  | text (value : String)
deriving DecidableEq

def PropertyValue.toText : PropertyValue → String
  | flag true => "true"
  | flag false => "false"
  | text value => value

inductive TargetCall
  | beginPatch (root : NodeId) (mode : PatchMode) (rule : Key.MatchRule)
  | endPatch
  | openElement (name key : String)
  | closeElement
  | text (value : String)
  | setAttribute (name value : String)
  | setProperty (name : String) (value : PropertyValue)
  | skip
  | skipNode
  | applyAttributes
  | applyStatics (attributes : List (String × String))
  | setInnerMarkup (node : NodeId) (markup : String)
  | setComment (node : NodeId) (value : String)
  | appendComment (parent : NodeId) (value : String)
deriving DecidableEq

/-- Calls that open, close, or add a node answer with it. -/
class RenderTarget (τ : Type) where
  apply : TargetCall → τ → Except Fault (Option NodeId × τ)
  document : τ → Document
  withDocument : τ → Document → τ
  /-- The node that the next opened element is compared with. -/
  pointer? : τ → Option NodeId
  current? : τ → Option NodeId
  hasContent : τ → NodeId → Except Fault Bool
  describe : τ → NodeId → Except Fault String

end KeyedRender

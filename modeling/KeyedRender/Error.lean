import KeyedRender.Document.Basic
import KeyedRender.Key.Decoding

/-!
# Errors and faults

An error aborts a render pass and is reported with it; most are violations of the contract by
the template. A fault is a state that no correct target or template reaches: nothing can go on
after it, and no error handling sees it.
-/
namespace KeyedRender

inductive RenderError
  | defaultToDefault
  | mutedToMuted
  | logOnlyWithoutLogger
  | loggingInCondition
  | skipParametersChanged (old new element : String)
  | keyDecode (cause : Key.DecodeError)
deriving DecidableEq

def RenderError.message : RenderError → String
  | defaultToDefault => "Cannot transition a default renderer to a default renderer"
  | mutedToMuted => "Cannot transition a muted renderer to a muted renderer"
  | logOnlyWithoutLogger =>
    "Cannot set logonly=\"true\" unless there is a logger configured"
  | loggingInCondition => "Cannot evaluate VE functions in conditions."
  | skipParametersChanged old new element =>
    "\nTried to rerender a \x7bskip\x7d template with different parameters!\n" ++
      "Make sure that you never pass a parameter that can change to a template that has\n" ++
      "\x7bskip\x7d, since changes to that parameter won't affect the skipped content.\n\n" ++
      "Old parameters: " ++ old ++ "\nNew parameters: " ++ new ++ "\n\nElement:\n" ++ element
  | keyDecode cause => cause.message

inductive Fault
  | deadNode (node : NodeId)
  | notAnElement (node : NodeId)
  | rootWithoutParent (node : NodeId)
  | notListed (node : NodeId)
  | positionOutOfRange (node : NodeId) (position : Nat)
  | reentered (component : ComponentId)
deriving DecidableEq

end KeyedRender

import KeyedRender.Key.Fragment

/-!
# Stacks of composite keys

The topmost scope holds the composite key in force. A call puts its fragment in front of it and
restores the previous key afterwards; a manually keyed element starts a scope of its own. The
root scope below all manual scopes cannot be removed.
-/
namespace KeyedRender.Key

structure Stack where
  root : String
  scopes : List String
deriving DecidableEq

namespace Stack

def empty : Stack := ⟨"", []⟩

def current (s : Stack) : String := s.scopes.headD s.root

def depth (s : Stack) : Nat := s.scopes.length

def setCurrent (s : Stack) (key : String) : Stack :=
  match s.scopes with
  | [] => { s with root := key }
  | _ :: below => { s with scopes := key :: below }

def pushManual (s : Stack) (fragment : Fragment) : Stack :=
  { s with scopes := encode fragment :: s.scopes }

def popManual (s : Stack) : Stack := { s with scopes := s.scopes.tail }

def newKey (s : Stack) (fragment : Fragment) : String := encode fragment ++ s.current

/-- The stack inside a call; the key to restore after it is the current one. -/
def pushCall (s : Stack) (fragment : Fragment) : Stack := s.setCurrent (s.newKey fragment)

def popCall (s : Stack) (previous : String) : Stack := s.setCurrent previous

@[simp] theorem current_setCurrent (s : Stack) (key : String) :
    (s.setCurrent key).current = key := by
  unfold setCurrent current; split <;> simp_all

@[simp] theorem setCurrent_setCurrent (s : Stack) (first second : String) :
    (s.setCurrent first).setCurrent second = s.setCurrent second := by
  cases s with
  | mk root scopes => cases scopes <;> rfl

@[simp] theorem setCurrent_current (s : Stack) : s.setCurrent s.current = s := by
  cases s with
  | mk root scopes => cases scopes <;> rfl

@[simp] theorem popCall_pushCall (s : Stack) (fragment : Fragment) :
    (s.pushCall fragment).popCall s.current = s := by
  simp [pushCall, popCall]

@[simp] theorem popManual_pushManual (s : Stack) (fragment : Fragment) :
    (s.pushManual fragment).popManual = s := rfl

end Stack

end KeyedRender.Key

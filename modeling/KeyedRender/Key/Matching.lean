import KeyedRender.Key.Fragment

/-!
# Matching keys

Markup carries keys as text, so a number equals the text that reads as it. Two text keys match
if one continues the other, which lets an element be found again from a deeper or a shallower
nesting of calls. A match rule says which element may take the place of another.
-/
namespace KeyedRender.Key

def looselyEqual : Fragment → Fragment → Bool
  | .absent, .absent => true
  | .absent, _ => false
  | _, .absent => false
  | .number x, .number y => x.equals y
  | .text s, .text t => decide (s = t)
  | .text s, .number x => (readNumber s.toList).equals x
  | .number x, .text s => (readNumber s.toList).equals x

/-- Whether one of two texts continues the other. -/
def isMatchingText (first second : String) : Bool :=
  second.toList.isPrefixOf first.toList || first.toList.isPrefixOf second.toList

def isMatching : Fragment → Fragment → Bool
  | .text proposed, .text current => isMatchingText proposed current
  | proposed, current => looselyEqual proposed current

/-- Element names must be equal and keys must match. -/
def elementMatches (name expected : String) (proposed current : Fragment) : Bool :=
  decide (name = expected) && isMatching proposed current

inductive MatchRule
  | keyed
  | exact
deriving DecidableEq

def MatchRule.accepts (rule : MatchRule) (name existing key existingKey : String) : Bool :=
  match rule with
  | .keyed => elementMatches name existing (.text key) (.text existingKey)
  | .exact => decide (name = existing) && decide (key = existingKey)

theorem looselyEqual_comm (a b : Fragment) : looselyEqual a b = looselyEqual b a := by
  cases a <;> cases b <;>
    simp [looselyEqual, Binary64.equals_comm, eq_comm]

theorem isMatchingText_comm (s t : String) : isMatchingText s t = isMatchingText t s := by
  simp [isMatchingText, Bool.or_comm]

end KeyedRender.Key

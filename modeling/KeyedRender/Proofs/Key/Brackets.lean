import KeyedRender.Key.Stack
import KeyedRender.Proofs.Key.Composite

/-!
# Brackets of keys

A call and a manual scope are brackets around what happens inside them. The key in force inside some
brackets is made of the fragments of the calls since the innermost manual scope, and of that scope's
own fragment; only outside all manual scopes it goes on with the key in force before the brackets.
-/
namespace KeyedRender.Key

/-- A call with the key to restore after it, or a manual scope. -/
inductive Bracket
  | call (fragment : Fragment) (previous : String)
  | manual (fragment : Fragment)
deriving DecidableEq

namespace Bracket

/-- The fragments of the calls since the innermost manual scope, from the innermost call on. -/
def calls : List Bracket → List Fragment
  | .call fragment _ :: outer => fragment :: calls outer
  | _ => []

def manual? : List Bracket → Option Fragment
  | [] => none
  | .call _ _ :: outer => manual? outer
  | .manual fragment :: _ => some fragment

def key (opened : List Bracket) (before : String) : String :=
  composite (calls opened) ++ (manual? opened).elim before encode

end Bracket

namespace Stack

def within (s : Stack) : List Bracket → Stack
  | [] => s
  | .call fragment _ :: outer => (s.within outer).pushCall fragment
  | .manual fragment :: outer => (s.within outer).pushManual fragment

def Restores (s : Stack) : List Bracket → Prop
  | [] => True
  | .call _ previous :: outer => previous = (s.within outer).current ∧ s.Restores outer
  | .manual _ :: outer => s.Restores outer

theorem current_within (s : Stack) (opened : List Bracket) :
    (s.within opened).current = Bracket.key opened s.current := by
  induction opened with
  | nil => simp [within, Bracket.key, Bracket.calls, Bracket.manual?, composite]
  | cons bracket outer ih =>
    cases bracket with
    | call fragment previous =>
      rw [within, pushCall, current_setCurrent, newKey, ih]
      simp only [Bracket.key, Bracket.calls, Bracket.manual?, composite, String.append_assoc]
    | manual fragment =>
      simp [within, Bracket.key, Bracket.calls, Bracket.manual?, composite, pushManual, current]

theorem newKey_within (s : Stack) (opened : List Bracket) (fragment : Fragment) :
    (s.within opened).newKey fragment = encode fragment ++ Bracket.key opened s.current := by
  rw [newKey, current_within]

end Stack

end KeyedRender.Key

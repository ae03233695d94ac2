import KeyedRender.Key.Numbers

/-!
# Key fragments

A composite key is made of fragments: nothing, a number, or a text. Each kind has a tag, and each
fragment a text of its own. A fragment is written as the length of its text in sixteen bit units,
its tag, and the text. The length makes the form delimit itself, so that a composite key is plain
concatenation with the innermost fragment first.
-/
namespace KeyedRender.Key

inductive FragmentKind
  | absent
  | number
  | text
deriving DecidableEq

namespace FragmentKind

def tag : FragmentKind → Char
  | absent => '_'
  | number => '#'
  | text => ':'

def ofTag? (c : Char) : Option FragmentKind :=
  if c = '_' then some absent
  else if c = '#' then some number
  else if c = ':' then some text
  else none

@[simp] theorem ofTag?_tag (kind : FragmentKind) : ofTag? kind.tag = some kind := by
  cases kind <;> rfl

theorem tag_of_ofTag? {c : Char} {kind : FragmentKind} (h : ofTag? c = some kind) :
    kind.tag = c := by
  unfold ofTag? at h
  split at h
  · cases h; symm; assumption
  split at h
  · cases h; symm; assumption
  split at h
  · cases h; symm; assumption
  · cases h

end FragmentKind

inductive Fragment
  | absent
  | number (value : Binary64)
  | text (value : String)
deriving DecidableEq

namespace Fragment

def kind : Fragment → FragmentKind
  | absent => .absent
  | number _ => .number
  | text _ => .text

def ofText? : Option String → Fragment
  | none => absent
  | some value => text value

def content : Fragment → List Char
  | absent => "null".toList
  | number value => numberText value
  | text value => value.toList

end Fragment

def chunk (kind : FragmentKind) (content : List Char) : List Char :=
  Nat.toDigits 10 (Text.units content) ++ kind.tag :: content

def Fragment.encoded (fragment : Fragment) : List Char :=
  chunk fragment.kind fragment.content

def encode (fragment : Fragment) : String :=
  String.ofList fragment.encoded

@[simp] theorem toList_encode (fragment : Fragment) :
    (encode fragment).toList = fragment.encoded := by
  simp [encode]

end KeyedRender.Key

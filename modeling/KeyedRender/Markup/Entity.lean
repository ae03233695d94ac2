import KeyedRender.Text.Basic

/-!
# Character references

Escaping writes the characters that markup reserves as references, with quotes reserved inside
attributes and angle brackets outside. Reading back scans from left to right: a reference runs
from an ampersand to the first semicolon after it, and an ampersand that starts none stands for
itself.
-/
namespace KeyedRender.Markup

inductive Place
  | value
  | content
deriving DecidableEq

def escapeChar (place : Place) (c : Char) : List Char :=
  if c = '&' then "&amp;".toList
  else if c = '"' ∧ place = .value then "&quot;".toList
  else if c = '<' ∧ place = .content then "&lt;".toList
  else if c = '>' ∧ place = .content then "&gt;".toList
  else if c = '\u00a0' then "&nbsp;".toList
  else [c]

def escape (place : Place) (text : List Char) : List Char :=
  text.flatMap (escapeChar place)

def scalar? (code : Nat) : Option Char :=
  if h : code.isValidChar then some (Char.ofNatAux code h) else none

def numbered? (number : List Char) : Option Char :=
  match number with
  | 'x' :: digits => (Text.wholeNumber? 16 Text.words32 digits).bind scalar?
  | 'X' :: digits => (Text.wholeNumber? 16 Text.words32 digits).bind scalar?
  | digits => (Text.wholeNumber? 10 Text.words32 digits).bind scalar?

def entity? (name : List Char) : Option Char :=
  if name = "amp".toList then some '&'
  else if name = "lt".toList then some '<'
  else if name = "gt".toList then some '>'
  else if name = "quot".toList then some '"'
  else if name = "apos".toList then some '\''
  else if name = "nbsp".toList then some '\u00a0'
  else match name with
    | '#' :: number => numbered? number
    | _ => none

def toSemicolon? : List Char → Option (List Char × List Char)
  | [] => none
  | c :: rest =>
    if c = ';' then some ([], rest)
    else (toSemicolon? rest).map fun (before, after) => (c :: before, after)

theorem toSemicolon?_length {text before after : List Char}
    (h : toSemicolon? text = some (before, after)) :
    before.length + after.length + 1 = text.length := by
  induction text generalizing before with
  | nil => cases h
  | cons c rest ih =>
    simp only [toSemicolon?] at h
    split at h
    · cases h; simp
    · cases hrest : toSemicolon? rest with
      | none => rw [hrest] at h; cases h
      | some pair =>
        rw [hrest] at h
        cases h
        have := ih hrest
        simp only [List.length_cons]
        omega

/-- The character of a reference whose ampersand was read, and what follows its semicolon. -/
def reference? (text : List Char) : Option (Char × List Char) :=
  match toSemicolon? text with
  | none => none
  | some (name, after) => (entity? name).map fun c => (c, after)

theorem reference?_length {text after : List Char} {c : Char}
    (h : reference? text = some (c, after)) : after.length < text.length := by
  unfold reference? at h
  split at h
  · cases h
  next name rest hsplit =>
    have hlen := toSemicolon?_length hsplit
    cases hname : entity? name with
    | none => rw [hname] at h; cases h
    | some d => rw [hname] at h; cases h; omega

def unescape (text : List Char) : List Char :=
  match text with
  | [] => []
  | c :: rest =>
    if c = '&' then
      match _h : reference? rest with
      | some (decoded, after) => decoded :: unescape after
      | none => '&' :: unescape rest
    else c :: unescape rest
termination_by text.length
decreasing_by
  · have := reference?_length _h
    simp only [List.length_cons]; omega
  · simp
  · simp

end KeyedRender.Markup

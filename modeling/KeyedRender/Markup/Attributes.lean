import KeyedRender.Markup.Entity

/-!
# Attributes in markup

Attribute markup is a list of names, each with an optional value after an equals sign. A value is
quoted, where a missing closing quote means that it runs to the end, or goes on to the next blank
or closing bracket. Whatever can start no name is skipped.
-/
namespace KeyedRender.Markup

def isAttributeBlank (c : Char) : Bool :=
  c = '\t' || c = '\n' || c = '\x0c' || c = '\r' || c = ' '

def isNameChar (c : Char) : Bool :=
  !(isAttributeBlank c || c = '/' || c = '>' || c = '=')

def isUnquotedChar (c : Char) : Bool :=
  !(isAttributeBlank c || c = '>')

def takeValue (text : List Char) : List Char × List Char :=
  match text with
  | '"' :: rest => (rest.takeWhile (· != '"'), (rest.dropWhile (· != '"')).tail)
  | '\'' :: rest => (rest.takeWhile (· != '\''), (rest.dropWhile (· != '\'')).tail)
  | _ => (text.takeWhile isUnquotedChar, text.dropWhile isUnquotedChar)

/-- The raw value behind a name, empty if there is none, and the rest. -/
def takeAssignment (text : List Char) : List Char × List Char :=
  match text.dropWhile isAttributeBlank with
  | '=' :: rest => takeValue (rest.dropWhile isAttributeBlank)
  | rest => ([], rest)

theorem length_dropWhile_le (p : Char → Bool) (text : List Char) :
    (text.dropWhile p).length ≤ text.length :=
  (List.dropWhile_suffix p).length_le

theorem takeValue_length_le (text : List Char) : (takeValue text).2.length ≤ text.length := by
  unfold takeValue
  split
  · next rest =>
    have := length_dropWhile_le (· != '"') rest
    simp only [List.length_tail, List.length_cons]; omega
  · next rest =>
    have := length_dropWhile_le (· != '\'') rest
    simp only [List.length_tail, List.length_cons]; omega
  · exact length_dropWhile_le _ _

theorem takeAssignment_length_le (text : List Char) :
    (takeAssignment text).2.length ≤ text.length := by
  have hskip := length_dropWhile_le isAttributeBlank text
  unfold takeAssignment
  split
  next rest heq =>
    have hvalue := takeValue_length_le (rest.dropWhile isAttributeBlank)
    have hrest := length_dropWhile_le isAttributeBlank rest
    rw [heq, List.length_cons] at hskip
    omega
  next => exact hskip

def rawAttributes (text : List Char) : List (List Char × List Char) :=
  match text with
  | [] => []
  | c :: rest =>
    if isNameChar c then
      let assigned := takeAssignment (rest.dropWhile isNameChar)
      (c :: rest.takeWhile isNameChar, assigned.1) :: rawAttributes assigned.2
    else rawAttributes rest
termination_by text.length
decreasing_by
  · have hname := length_dropWhile_le isNameChar rest
    have hvalue := takeAssignment_length_le (rest.dropWhile isNameChar)
    simp only [List.length_cons]; omega
  · simp

/-- The attributes in markup, their values without character references. -/
def splitAttributes (markup : String) : List (String × String) :=
  (rawAttributes markup.toList).map fun (name, value) =>
    (String.ofList name, String.ofList (unescape value))

end KeyedRender.Markup

import KeyedRender.Decimal.Shortest
import KeyedRender.Payload.Basic

/-!
# Payload text

Two forms of the same notation: a compact one without blanks, and an indented one with two blanks
a level. Floating point numbers always have a point or an exponent, so that they differ from
whole numbers; text escapes quotes, backslashes and controls.
-/
namespace KeyedRender

namespace Json

open Decimal (significant leading positional scientific shortest)

/-- Positional from `1e-5` up to below `1e16`, with a point even in whole numbers. -/
def magnitudeText (position : Nat) : List Char :=
  if position = 0 then "0.0".toList
  else
    let d := shortest .even position
    let digits := significant d
    let lead := leading d
    if -5 ≤ lead ∧ lead < 16 then
      let text := positional digits lead
      if (digits.length : Int) ≤ lead + 1 then text ++ ".0".toList else text
    else scientific digits lead ['+']

def floatText (negative : Bool) (position : Nat) : List Char :=
  (if negative then ['-'] else []) ++ magnitudeText position

def intText (n : Int) : List Char :=
  if n < 0 then '-' :: Nat.toDigits 10 n.natAbs else Nat.toDigits 10 n.natAbs

def escapeChar (c : Char) : List Char :=
  if c = '"' then ['\\', '"']
  else if c = '\\' then ['\\', '\\']
  else if c = '\x08' then ['\\', 'b']
  else if c = '\x0c' then ['\\', 'f']
  else if c = '\n' then ['\\', 'n']
  else if c = '\r' then ['\\', 'r']
  else if c = '\t' then ['\\', 't']
  else if c.toNat < 0x20 then
    "\\u00".toList ++ [Nat.digitChar (c.toNat / 16), Nat.digitChar (c.toNat % 16)]
  else [c]

def quotedText (text : String) : List Char :=
  '"' :: text.toList.flatMap escapeChar ++ ['"']

mutual

def compact : Json → List Char
  | null => "null".toList
  | bool true => "true".toList
  | bool false => "false".toList
  | int n => intText n
  | float negative position => floatText negative position
  | text s => quotedText s
  | list items => '[' :: compactItems items ++ [']']
  | object members => '\x7b' :: compactMembers members ++ ['\x7d']

def compactItems : List Json → List Char
  | [] => []
  | [item] => compact item
  | item :: next :: rest => compact item ++ ',' :: compactItems (next :: rest)

def compactMembers : List (String × Json) → List Char
  | [] => []
  | [(name, value)] => quotedText name ++ ':' :: compact value
  | (name, value) :: next :: rest =>
    quotedText name ++ ':' :: compact value ++ ',' :: compactMembers (next :: rest)

end

def newline (level : Nat) : List Char := '\n' :: List.replicate (2 * level) ' '

mutual

def indented (level : Nat) : Json → List Char
  | null => "null".toList
  | bool true => "true".toList
  | bool false => "false".toList
  | int n => intText n
  | float negative position => floatText negative position
  | text s => quotedText s
  | list [] => "[]".toList
  | list (item :: rest) =>
    '[' :: indentedItems (level + 1) (item :: rest) ++ newline level ++ [']']
  | object [] => "\x7b\x7d".toList
  | object (member :: rest) =>
    '\x7b' :: indentedMembers (level + 1) (member :: rest) ++ newline level ++ ['\x7d']

def indentedItems (level : Nat) : List Json → List Char
  | [] => []
  | [item] => newline level ++ indented level item
  | item :: next :: rest =>
    newline level ++ indented level item ++ ',' :: indentedItems level (next :: rest)

def indentedMembers (level : Nat) : List (String × Json) → List Char
  | [] => []
  | [(name, value)] => newline level ++ quotedText name ++ ": ".toList ++ indented level value
  | (name, value) :: next :: rest =>
    newline level ++ quotedText name ++ ": ".toList ++ indented level value ++
      ',' :: indentedMembers level (next :: rest)

end

end Json

namespace Payload

def compactText (p : Payload) : String := String.ofList (Json.compact p.tree)

def indentedText (p : Payload) : String := String.ofList (Json.indented 0 p.tree)

end Payload

end KeyedRender

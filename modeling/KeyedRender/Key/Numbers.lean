import KeyedRender.Decimal.Shortest
import KeyedRender.Text.Basic

/-!
# Numbers in keys

A key holds a number as text: the shortest decimal that reads back, positional from `1e-6` up to
below `1e21`, and otherwise with a signed exponent. Both zeros are written alike.

The number that a text stands for in a loose comparison is read more leniently. Blanks around it do
not count, empty text is zero, the infinities have names, and `0x`, `0o` and `0b` start whole
numbers below `2 ^ 64` in their radix. Any other text is a decimal number or not a number.
-/
namespace KeyedRender.Key

open Decimal (significant leading positional scientific shortest)

def magnitudeText (position : Nat) : List Char :=
  let d := shortest .up position
  let lead := leading d
  if -6 ≤ lead ∧ lead < 21 then positional (significant d) lead
  else scientific (significant d) lead ['+']

def numberText : Binary64 → List Char
  | .nan => "NaN".toList
  | .infinite false => "Infinity".toList
  | .infinite true => "-Infinity".toList
  | .finite negative position =>
    if position.val = 0 then ['0']
    else (if negative then ['-'] else []) ++ magnitudeText position

def radixOf? : List Char → Option (Nat × List Char)
  | '0' :: mark :: digits =>
    if mark = 'x' || mark = 'X' then some (16, digits)
    else if mark = 'o' || mark = 'O' then some (8, digits)
    else if mark = 'b' || mark = 'B' then some (2, digits)
    else none
  | _ => none

def readNumber (text : List Char) : Binary64 :=
  let body := Text.trimBlanks text
  if body.isEmpty then .zero
  else if body = "Infinity".toList || body = "+Infinity".toList then .infinite false
  else if body = "-Infinity".toList then .infinite true
  else match radixOf? body with
    | some (radix, digits) =>
      match Text.wholeNumber? radix Text.words64 digits with
      | some n => .ofRatio false n 1
      | none => .nan
    | none => (Decimal.readBinary64? body).getD .nan

end KeyedRender.Key

import KeyedRender.Binary64

/-!
# Decimal numbers and their text

A decimal number is a coefficient times a power of ten. Its text is an optional sign, digits
with an optional point, and an optional exponent; at least one digit is needed before the
exponent and one in it. Reading goes to the nearest 64 bit number, and magnitudes that are out
of range on either side are settled before any power of ten is taken.
-/
namespace KeyedRender

structure Decimal where
  coefficient : Nat
  scale : Int
deriving DecidableEq

namespace Decimal

def digitCount (n : Nat) : Nat := (Nat.toDigits 10 n).length

def digitsValue (digits : List Char) : Nat := Nat.ofDigitChars 10 digits 0

def toBinary64 (negative : Bool) (d : Decimal) : Binary64 :=
  let top : Int := digitCount d.coefficient + d.scale
  if d.coefficient = 0 || top < -330 then .ofPosition negative 0
  else if top > 310 then .infinite negative
  else .ofRatio negative (d.coefficient * Nat.pow 10 d.scale.toNat) (Nat.pow 10 (-d.scale).toNat)

def readSign : List Char → Bool × List Char
  | '-' :: rest => (true, rest)
  | '+' :: rest => (false, rest)
  | rest => (false, rest)

/-- The exponent that ends a number; none if the text is neither empty nor an exponent. -/
def readExponent? : List Char → Option Int
  | [] => some 0
  | mark :: rest =>
    let (negative, digits) := readSign rest
    if (mark = 'e' || mark = 'E') && !digits.isEmpty && digits.all Char.isDigit then
      some (if negative then -(digitsValue digits : Int) else digitsValue digits)
    else none

def readMantissa (text : List Char) : List Char × List Char × List Char :=
  let whole := text.takeWhile Char.isDigit
  match text.dropWhile Char.isDigit with
  | '.' :: rest => (whole, rest.takeWhile Char.isDigit, rest.dropWhile Char.isDigit)
  | rest => (whole, [], rest)

def read? (text : List Char) : Option (Bool × Decimal) :=
  let (negative, body) := readSign text
  let (whole, fraction, rest) := readMantissa body
  if whole.isEmpty && fraction.isEmpty then none
  else (readExponent? rest).map fun exponent =>
    (negative, ⟨digitsValue (whole ++ fraction), exponent - fraction.length⟩)

def readBinary64? (text : List Char) : Option Binary64 :=
  (read? text).map fun (negative, d) => d.toBinary64 negative

end Decimal

end KeyedRender

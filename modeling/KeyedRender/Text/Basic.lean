/-!
# Characters and text

The blanks that trimming removes are the characters with the Unicode property `White_Space`; the
zero width no-break space is not among them. A whole number is read in a radix up to sixteen, with
an optional plus sign in front; text without digits and values past a given bound are refused. A
character takes one or two units of sixteen bits, two exactly past `0xffff`, and one to four bytes.
-/
namespace KeyedRender.Text

def isBlank (c : Char) : Bool :=
  let n := c.toNat
  (9 ≤ n && n ≤ 13) || n = 0x20 || n = 0x85 || n = 0xa0 || n = 0x1680 ||
    (0x2000 ≤ n && n ≤ 0x200a) || n = 0x2028 || n = 0x2029 || n = 0x202f || n = 0x205f ||
    n = 0x3000

def trimBlanks (text : List Char) : List Char :=
  ((text.dropWhile isBlank).reverse.dropWhile isBlank).reverse

def digitValue? (radix : Nat) (c : Char) : Option Nat :=
  let n := c.toNat
  let value? :=
    if '0'.toNat ≤ n ∧ n ≤ '9'.toNat then some (n - '0'.toNat)
    else if 'a'.toNat ≤ n ∧ n ≤ 'z'.toNat then some (n - 'a'.toNat + 10)
    else if 'A'.toNat ≤ n ∧ n ≤ 'Z'.toNat then some (n - 'A'.toNat + 10)
    else none
  value?.filter (· < radix)

def digitsIn? (radix : Nat) (digits : List Char) : Option Nat :=
  digits.foldl (fun sum c => sum.bind fun n => (digitValue? radix c).map (n * radix + ·)) (some 0)

def unsigned : List Char → List Char
  | '+' :: rest => rest
  | digits => digits

def words32 : Nat := 0x100000000

def words64 : Nat := 0x10000000000000000

def wholeNumber? (radix bound : Nat) (text : List Char) : Option Nat :=
  let digits := unsigned text
  if digits.isEmpty then none else (digitsIn? radix digits).filter (· < bound)

def unitWidth (c : Char) : Nat := if c.toNat < 0x10000 then 1 else 2

def units : List Char → Nat
  | [] => 0
  | c :: rest => unitWidth c + units rest

def bytes : List Char → Nat
  | [] => 0
  | c :: rest => c.utf8Size + bytes rest

theorem unitWidth_pos (c : Char) : 0 < unitWidth c := by
  unfold unitWidth; split <;> decide

theorem unitWidth_le_two (c : Char) : unitWidth c ≤ 2 := by
  unfold unitWidth; split <;> decide

@[simp] theorem units_append (first second : List Char) :
    units (first ++ second) = units first + units second := by
  induction first with
  | nil => simp [units]
  | cons c rest ih => simp only [List.cons_append, units, ih, Nat.add_assoc]

@[simp] theorem bytes_append (first second : List Char) :
    bytes (first ++ second) = bytes first + bytes second := by
  induction first with
  | nil => simp [bytes]
  | cons c rest ih => simp only [List.cons_append, bytes, ih, Nat.add_assoc]

end KeyedRender.Text

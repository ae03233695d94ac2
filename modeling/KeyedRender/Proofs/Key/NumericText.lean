import KeyedRender.Proofs.Decimal.Literals
import KeyedRender.Proofs.Decimal.Nearest
import KeyedRender.Proofs.Key.Numbers

/-!
# Numeric text

What a text stands for as a number, said without reading it: nothing is zero, the infinities have
names, and whole numbers in a radix and decimal literals go to the nearest number. Everything else
is not a number. Dialects of numeric text differ in the blanks around it and in the whole numbers in
a radix. The dialect that is read trims one blank more and one less than the standard one, takes a
plus sign behind the mark of a radix, and has no number for what does not fit into a word.
-/
namespace KeyedRender.Key

open Binary64 (Nearest)
open Decimal (Sign)
open Text (Numeral)

structure Dialect where
  blank : Char → Bool
  /-- What may stand between the mark of a radix and the digits. -/
  gaps : List (List Char)
  /-- The whole numbers that may be written in a radix. -/
  fits : Nat → Prop

/-- White space and line ends, the zero width no-break space among them. -/
def isSpace (c : Char) : Bool :=
  let n := c.toNat
  (9 ≤ n && n ≤ 13) || n = 0x20 || n = 0xa0 || n = 0x1680 || (0x2000 ≤ n && n ≤ 0x200a) ||
    n = 0x2028 || n = 0x2029 || n = 0x202f || n = 0x205f || n = 0x3000 || n = 0xfeff

namespace Dialect

def standard : Dialect := ⟨isSpace, [[]], fun _ => True⟩

def actual : Dialect := ⟨Text.isBlank, [[], ['+']], (· < Text.words64)⟩

def trim (d : Dialect) (text : List Char) : List Char :=
  ((text.dropWhile d.blank).reverse.dropWhile d.blank).reverse

end Dialect

def radixMarks : List (Char × Nat) :=
  [('x', 16), ('X', 16), ('o', 8), ('O', 8), ('b', 2), ('B', 2)]

/-- A text without blanks around it, and the number that it stands for. -/
inductive NumericText (d : Dialect) : List Char → Binary64 → Prop
  | empty : NumericText d [] .zero
  | infinity {negative : Bool} {sign : List Char} : Sign negative sign →
      NumericText d (sign ++ "Infinity".toList) (.infinite negative)
  | radix {mark : Char} {radix n : Nat} {gap digits : List Char} {x : Binary64} :
      (mark, radix) ∈ radixMarks → gap ∈ d.gaps → Numeral radix digits n → d.fits n →
      Nearest false n x → NumericText d ('0' :: mark :: (gap ++ digits)) x
  | decimal {negative : Bool} {sign body : List Char} {value : Decimal} {x : Binary64} :
      Sign negative sign → Decimal.Literal body value → Nearest negative value.value x →
      NumericText d (sign ++ body) x

/-- The number that any text stands for. -/
inductive Denotes (d : Dialect) (text : List Char) : Binary64 → Prop
  | numeric {x : Binary64} : NumericText d (d.trim text) x → Denotes d text x
  | other : (∀ x, ¬ NumericText d (d.trim text) x) → Denotes d text .nan

theorem nearest_whole (n : Nat) : Nearest false n (.ofRatio false n 1) := by
  simpa using Binary64.nearest_ofRatio false n Nat.one_pos

section Reading

variable {body text : List Char} {x : Binary64}

def readBody? (body : List Char) : Option Binary64 :=
  if body.isEmpty then some .zero
  else if body = "Infinity".toList || body = "+Infinity".toList then some (.infinite false)
  else if body = "-Infinity".toList then some (.infinite true)
  else match radixOf? body with
    | some (radix, digits) =>
      (Text.wholeNumber? radix Text.words64 digits).map fun n => .ofRatio false n 1
    | none => Decimal.readBinary64? body

theorem readNumber_eq (text : List Char) :
    readNumber text = (readBody? (Dialect.actual.trim text)).getD .nan := by
  have htrim : Dialect.actual.trim text = Text.trimBlanks text := rfl
  rw [htrim, readNumber, readBody?]
  split
  · rfl
  split
  · rfl
  split
  · rfl
  cases radixOf? (Text.trimBlanks text) with
  | none => rfl
  | some found =>
    obtain ⟨radix, digits⟩ := found
    dsimp only
    cases Text.wholeNumber? radix Text.words64 digits with
    | none => rw [Option.map_none, Option.getD_none]
    | some n => rw [Option.map_some, Option.getD_some]

theorem radixOf?_eq_some_iff {radix : Nat} {digits : List Char} :
    radixOf? body = some (radix, digits) ↔
      ∃ mark, (mark, radix) ∈ radixMarks ∧ body = '0' :: mark :: digits := by
  constructor
  · intro h
    unfold radixOf? at h
    split at h
    · next mark rest =>
      refine ⟨mark, ?_⟩
      split at h
      · next hmark =>
        cases h
        simpa [radixMarks] using hmark
      split at h
      · next hmark =>
        cases h
        simpa [radixMarks] using hmark
      split at h
      · next hmark =>
        cases h
        simpa [radixMarks] using hmark
      · cases h
    · cases h
  · rintro ⟨mark, hmark, rfl⟩
    simp only [radixMarks, List.mem_cons, Prod.mk.injEq, List.not_mem_nil, or_false] at hmark
    rcases hmark with ⟨rfl, rfl⟩ | ⟨rfl, rfl⟩ | ⟨rfl, rfl⟩ | ⟨rfl, rfl⟩ | ⟨rfl, rfl⟩ | ⟨rfl, rfl⟩
    all_goals rfl

theorem radix_le {mark : Char} {radix : Nat} (h : (mark, radix) ∈ radixMarks) : radix ≤ 16 := by
  have hall : ∀ m ∈ radixMarks, m.2 ≤ 16 := by decide
  exact hall _ h

theorem isNumberChar_decimal {negative : Bool} {sign : List Char} {value : Decimal}
    (hsign : Sign negative sign) (h : Decimal.Literal body value) :
    ∀ c ∈ sign ++ body, isNumberChar c = true ∨ c = 'E' := by
  have hsigns : ∀ {negative : Bool} {sign : List Char}, Sign negative sign →
      ∀ c ∈ sign, isNumberChar c = true ∨ c = 'E' := fun hs c hc => by
    cases hs with
    | none => cases hc
    | plus => exact .inl (List.mem_singleton.1 hc ▸ by decide)
    | minus => exact .inl (List.mem_singleton.1 hc ▸ by decide)
  have hdigits : ∀ {digits : List Char} {n : Nat}, Numeral 10 digits n →
      ∀ c ∈ digits, isNumberChar c = true ∨ c = 'E' := fun hd c hc =>
    .inl (isNumberChar_of_isDigit ((Decimal.numeral_ten_iff.1 hd).2.1 c hc))
  have hexponent : ∀ {rest : List Char} {exponent : Int}, Decimal.Exponent rest exponent →
      ∀ c ∈ rest, isNumberChar c = true ∨ c = 'E' := fun he c hc => by
    cases he with
    | none => cases hc
    | @marked mark _ _ _ _ hmark hs hd =>
      rcases List.mem_cons.1 hc with rfl | hc
      · exact hmark.imp_left fun he => by rw [he]; decide
      · exact (List.mem_append.1 hc).elim (hsigns hs c) (hdigits hd c)
  intro c hc
  rcases List.mem_append.1 hc with hc | hc
  · exact hsigns hsign c hc
  cases h with
  | whole hd he => exact (List.mem_append.1 hc).elim (hdigits hd c) (hexponent he c)
  | point hd he =>
    rcases List.mem_append.1 hc with hc | hc
    · exact hdigits hd c (List.mem_append_left _ hc)
    rcases List.mem_cons.1 hc with rfl | hc
    · exact .inl (by decide)
    · exact (List.mem_append.1 hc).elim
        (fun hc => hdigits hd c (List.mem_append_right _ hc)) (hexponent he c)

theorem notMem_decimal {negative : Bool} {sign : List Char} {value : Decimal} {c : Char}
    (hsign : Sign negative sign) (h : Decimal.Literal body value) (hc : isNumberChar c = false)
    (hE : c ≠ 'E') : c ∉ sign ++ body := fun hmem => by
  rcases isNumberChar_decimal hsign h c hmem with hnumber | heq
  · rw [hc] at hnumber
    cases hnumber
  · exact hE heq

theorem not_isNumberChar_mark {mark : Char} {radix : Nat} (h : (mark, radix) ∈ radixMarks) :
    isNumberChar mark = false ∧ mark ≠ 'E' := by
  have hall : ∀ m ∈ radixMarks, isNumberChar m.1 = false ∧ m.1 ≠ 'E' := by decide
  exact hall _ h

theorem readBody?_of_radixOf? {radix : Nat} {digits : List Char}
    (h : radixOf? body = some (radix, digits)) : readBody? body =
      (Text.wholeNumber? radix Text.words64 digits).map fun n => .ofRatio false n 1 := by
  obtain ⟨mark, -, rfl⟩ := radixOf?_eq_some_iff.1 h
  have hname : ∀ name : List Char, name.head? ≠ some '0' → '0' :: mark :: digits ≠ name := by
    rintro name hhead rfl
    exact hhead rfl
  simp only [readBody?, List.isEmpty_cons, hname "Infinity".toList (by decide),
    hname "+Infinity".toList (by decide), hname "-Infinity".toList (by decide), h, decide_false,
    Bool.or_self, Bool.false_eq_true, if_false]

theorem readBody?_of_unmarked (hne : body ≠ []) (hname : 'I' ∉ body)
    (hradix : radixOf? body = none) : readBody? body = Decimal.readBinary64? body := by
  have hempty : body.isEmpty = false := List.isEmpty_eq_false_iff.2 hne
  have hnames : ∀ name : List Char, 'I' ∈ name → body ≠ name := by
    rintro name hmem rfl
    exact hname hmem
  simp only [readBody?, hempty, hnames "Infinity".toList (by decide),
    hnames "+Infinity".toList (by decide), hnames "-Infinity".toList (by decide), hradix,
    decide_false, Bool.or_self, Bool.false_eq_true, if_false]

theorem NumericText.readBody?_eq (h : NumericText .actual body x) : readBody? body = some x := by
  cases h with
  | empty => rfl
  | infinity hsign => cases hsign <;> rfl
  | @radix mark radix n gap digits x hmark hgap hdigits hfits hx =>
    have hread : Text.wholeNumber? radix Text.words64 (gap ++ digits) = some n :=
      (Text.wholeNumber?_eq_some_iff (radix_le hmark)).2 ⟨⟨gap, hgap, digits, rfl, hdigits⟩, hfits⟩
    rw [readBody?_of_radixOf? (radixOf?_eq_some_iff.2 ⟨mark, hmark, rfl⟩), hread, Option.map_some,
      (nearest_whole n).unique hx]
  | @decimal negative sign literal value x hsign hliteral hx =>
    have hread := Decimal.read?_eq_some_iff.2 ⟨sign, literal, rfl, hsign, hliteral⟩
    have hne : sign ++ literal ≠ [] := by
      intro hnil
      rw [hnil] at hread
      cases hread
    have hradix : radixOf? (sign ++ literal) = none := by
      refine Option.eq_none_iff_forall_not_mem.2 fun found hfound => ?_
      obtain ⟨mark, hmark, heq⟩ := radixOf?_eq_some_iff.1 hfound
      obtain ⟨hnumber, hE⟩ := not_isNumberChar_mark hmark
      exact notMem_decimal hsign hliteral hnumber hE (heq ▸ by simp)
    have hname := notMem_decimal (c := 'I') hsign hliteral (by decide) (by decide)
    rw [readBody?_of_unmarked hne hname hradix, Decimal.readBinary64?, hread, Option.map_some]
    exact congrArg some ((Decimal.nearest_toBinary64 negative value).unique hx)

theorem numericText_of_readBody? (h : readBody? body = some x) : NumericText .actual body x := by
  unfold readBody? at h
  split at h
  · next hempty =>
    cases h
    rw [List.isEmpty_iff.1 hempty]
    exact .empty
  split at h
  · next hname =>
    cases h
    simp only [Bool.or_eq_true, decide_eq_true_eq] at hname
    rcases hname with rfl | rfl
    · exact .infinity .none
    · exact .infinity .plus
  split at h
  · next hname =>
    cases h
    rw [hname]
    exact .infinity .minus
  split at h
  · next radix digits hradix =>
    obtain ⟨mark, hmark, rfl⟩ := radixOf?_eq_some_iff.1 hradix
    obtain ⟨n, hread, rfl⟩ := Option.map_eq_some_iff.1 h
    obtain ⟨⟨gap, hgap, digits, rfl, hdigits⟩, hfits⟩ :=
      (Text.wholeNumber?_eq_some_iff (radix_le hmark)).1 hread
    exact .radix hmark hgap hdigits hfits (nearest_whole n)
  · obtain ⟨⟨negative, d⟩, hread, rfl⟩ := Option.map_eq_some_iff.1 h
    obtain ⟨sign, literal, rfl, hsign, hliteral⟩ := Decimal.read?_eq_some_iff.1 hread
    exact .decimal hsign hliteral (Decimal.nearest_toBinary64 negative d)

theorem numericText_iff : NumericText .actual body x ↔ readBody? body = some x :=
  ⟨NumericText.readBody?_eq, numericText_of_readBody?⟩

theorem denotes_iff : Denotes .actual text x ↔ readNumber text = x := by
  rw [readNumber_eq]
  constructor
  · intro h
    cases h with
    | numeric h => rw [numericText_iff.1 h, Option.getD_some]
    | other h =>
      cases hread : readBody? (Dialect.actual.trim text) with
      | none => rfl
      | some y => exact absurd (numericText_iff.2 hread) (h y)
  · rintro rfl
    cases hread : readBody? (Dialect.actual.trim text) with
    | some y => exact .numeric (numericText_iff.2 hread)
    | none =>
      refine .other fun y hy => ?_
      rw [numericText_iff.1 hy] at hread
      cases hread

end Reading

section Agreement

/-- A text in which both dialects have the same blanks around the number, and which has no sign and
no large number behind the mark of a radix. -/
structure Ordinary (text : List Char) : Prop where
  blanks : Dialect.actual.trim text = Dialect.standard.trim text
  unsigned : ∀ {mark radix rest}, (mark, radix) ∈ radixMarks →
    Dialect.standard.trim text ≠ '0' :: mark :: '+' :: rest
  small : ∀ {mark radix digits n}, (mark, radix) ∈ radixMarks →
    Dialect.standard.trim text = '0' :: mark :: digits → Numeral radix digits n → n < Text.words64

variable {text : List Char} {x : Binary64}

theorem NumericText.of_radix {d d' : Dialect} {body : List Char} (h : NumericText d body x)
    (hradix : ∀ {mark radix gap digits n}, (mark, radix) ∈ radixMarks →
      body = '0' :: mark :: (gap ++ digits) → Numeral radix digits n → gap ∈ d.gaps → d.fits n →
      gap ∈ d'.gaps ∧ d'.fits n) : NumericText d' body x := by
  cases h with
  | empty => exact .empty
  | infinity hsign => exact .infinity hsign
  | radix hmark hgap hdigits hfits hx =>
    obtain ⟨hgap', hfits'⟩ := hradix hmark rfl hdigits hgap hfits
    exact .radix hmark hgap' hdigits hfits' hx
  | decimal hsign hliteral hx => exact .decimal hsign hliteral hx

theorem Ordinary.numericText_iff (h : Ordinary text) :
    NumericText .actual (Dialect.standard.trim text) x ↔
      NumericText .standard (Dialect.standard.trim text) x := by
  constructor
  · intro hread
    refine hread.of_radix fun hmark hbody _ hgap _ => ?_
    rcases List.mem_cons.1 hgap with rfl | hgap
    · exact ⟨List.mem_cons_self, trivial⟩
    · rw [List.mem_singleton.1 hgap] at hbody
      exact absurd hbody (h.unsigned hmark)
  · intro hread
    refine hread.of_radix fun hmark hbody hdigits hgap _ => ?_
    obtain rfl := List.mem_singleton.1 hgap
    exact ⟨List.mem_cons_self, h.small hmark hbody hdigits⟩

theorem Ordinary.denotes_iff (h : Ordinary text) :
    Denotes .actual text x ↔ Denotes .standard text x := by
  constructor
  · intro hx
    cases hx with
    | numeric hx => exact .numeric (h.numericText_iff.1 (h.blanks ▸ hx))
    | other hx => exact .other fun y hy => hx y (h.blanks.symm ▸ h.numericText_iff.2 hy)
  · intro hx
    cases hx with
    | numeric hx => exact .numeric (h.blanks.symm ▸ h.numericText_iff.2 hx)
    | other hx => exact .other fun y hy => hx y (h.numericText_iff.1 (h.blanks ▸ hy))

theorem isBlank_eq_isSpace {c : Char} (hnext : c ≠ '\x85') (hjoiner : c ≠ '\ufeff') :
    Text.isBlank c = isSpace c := by
  have h85 : c.toNat ≠ 0x85 := fun h => hnext (Char.toNat_inj.1 h)
  have hfeff : c.toNat ≠ 0xfeff := fun h => hjoiner (Char.toNat_inj.1 h)
  simp [Text.isBlank, isSpace, h85, hfeff]

theorem dropWhile_congr {p q : Char → Bool} {text : List Char} (h : ∀ c ∈ text, p c = q c) :
    text.dropWhile p = text.dropWhile q := by
  induction text with
  | nil => rfl
  | cons c rest ih =>
    rw [List.dropWhile_cons, List.dropWhile_cons, h c List.mem_cons_self,
      ih fun d hd => h d (List.mem_cons_of_mem c hd)]

theorem Ordinary.of_radixOf? (hblanks : ∀ c ∈ text, c ≠ '\x85' ∧ c ≠ '\ufeff')
    (hradix : radixOf? (Dialect.standard.trim text) = none) : Ordinary text := by
  have hcommon : ∀ c ∈ text, Text.isBlank c = isSpace c := fun c hc =>
    isBlank_eq_isSpace (hblanks c hc).1 (hblanks c hc).2
  have hfront := dropWhile_congr hcommon
  have hnone : ∀ {mark radix digits}, (mark, radix) ∈ radixMarks →
      Dialect.standard.trim text ≠ '0' :: mark :: digits := fun hmark heq => by
    rw [radixOf?_eq_some_iff.2 ⟨_, hmark, heq⟩] at hradix
    cases hradix
  refine ⟨?_, fun hmark => hnone hmark, fun hmark heq _ => absurd heq (hnone hmark)⟩
  have hback : ∀ c ∈ (text.dropWhile isSpace).reverse, Text.isBlank c = isSpace c :=
    fun c hc => hcommon c (List.dropWhile_subset isSpace (List.mem_reverse.1 hc))
  simp only [Dialect.trim, Dialect.actual, Dialect.standard, hfront, dropWhile_congr hback]

section Radix

variable {mark : Char} {radix n : Nat} {digits : List Char} (hmark : (mark, radix) ∈ radixMarks)
  (hdigits : Numeral radix digits n)
include hmark hdigits

theorem numericText_large (hlarge : Text.words64 ≤ n) :
    (∃ x, NumericText .standard ('0' :: mark :: digits) x) ∧
      ∀ x, ¬ NumericText .actual ('0' :: mark :: digits) x := by
  have hstandard : NumericText .standard ('0' :: mark :: ([] ++ digits)) (.ofRatio false n 1) :=
    .radix hmark List.mem_cons_self hdigits trivial (nearest_whole n)
  refine ⟨⟨_, hstandard⟩, fun x hx => ?_⟩
  have hplus := hdigits.notMem (c := '+') (radix_le hmark) (by decide)
  have hread := numericText_iff.1 hx
  have hradix : radixOf? ('0' :: mark :: digits) = some (radix, digits) :=
    radixOf?_eq_some_iff.2 ⟨mark, hmark, rfl⟩
  have hnone : Text.wholeNumber? radix Text.words64 digits = none := by
    refine Option.eq_none_iff_forall_not_mem.2 fun m hm => ?_
    obtain ⟨⟨gap, hgap, rest, rfl, hrest⟩, hfits⟩ :=
      (Text.wholeNumber?_eq_some_iff (radix_le hmark)).1 hm
    rcases List.mem_cons.1 hgap with rfl | hgap
    · have := hdigits.unique (radix_le hmark) hrest
      omega
    · rw [List.mem_singleton.1 hgap] at hplus
      exact hplus List.mem_cons_self
  rw [readBody?_of_radixOf? hradix, hnone] at hread
  cases hread

theorem numericText_signed (hsmall : n < Text.words64) :
    (∃ x, NumericText .actual ('0' :: mark :: '+' :: digits) x) ∧
      ∀ x, ¬ NumericText .standard ('0' :: mark :: '+' :: digits) x := by
  have hactual : NumericText .actual ('0' :: mark :: (['+'] ++ digits)) (.ofRatio false n 1) :=
    .radix hmark (by simp [Dialect.actual]) hdigits hsmall (nearest_whole n)
  refine ⟨⟨_, hactual⟩, fun x hx => ?_⟩
  generalize hbody : '0' :: mark :: '+' :: digits = body at hx
  cases hx with
  | empty => cases hbody
  | infinity hsign => cases hsign <;> cases hbody
  | radix hmark' hgap hrest _ _ =>
    rw [List.mem_singleton.1 hgap] at hbody
    cases hbody
    exact hrest.notMem (radix_le hmark') (by decide) List.mem_cons_self
  | decimal hsign hliteral _ =>
    obtain ⟨hnumber, hE⟩ := not_isNumberChar_mark hmark
    exact notMem_decimal hsign hliteral hnumber hE (hbody ▸ by simp)

end Radix

end Agreement

/-- A text and a number are loosely equal, whichever comes first, exactly if the number equals the
one that the text stands for in the dialect that is read. Every text stands for one number there, and
an ordinary text for the same as in the standard dialect. -/
theorem looselyEqual_text_iff (s : String) (n : Binary64) :
    (∃! x, Denotes .actual s.toList x) ∧
      (looselyEqual (.text s) (.number n) = true ↔
        ∃ x, Denotes .actual s.toList x ∧ x.equals n = true) ∧
      (looselyEqual (.number n) (.text s) = true ↔
        ∃ x, Denotes .actual s.toList x ∧ x.equals n = true) ∧
      (Ordinary s.toList → ∀ x, Denotes .actual s.toList x ↔ Denotes .standard s.toList x) := by
  have hequal : (readNumber s.toList).equals n = true ↔
      ∃ x, Denotes .actual s.toList x ∧ x.equals n = true := by
    simp only [denotes_iff, exists_eq_left']
  exact ⟨⟨readNumber s.toList, denotes_iff.2 rfl, fun x hx => (denotes_iff.1 hx).symm⟩, hequal,
    hequal, fun h x => h.denotes_iff⟩

theorem looselyEqual_text_iff_padded :
    Ordinary " 12 ".toList ∧ Denotes .standard " 12 ".toList (.ofInt 12) ∧
      looselyEqual (.text " 12 ") (.number (.ofInt 12)) = true := by
  have hordinary : Ordinary " 12 ".toList := .of_radixOf? (by simp) (by decide +kernel)
  obtain ⟨-, hequal, -, hagree⟩ := looselyEqual_text_iff " 12 " (.ofInt 12)
  have hread : Denotes .actual " 12 ".toList (.ofInt 12) := denotes_iff.2 (by decide +kernel)
  exact ⟨hordinary, (hagree hordinary _).1 hread,
    hequal.2 ⟨_, hread, Binary64.equals_self (by decide +kernel)⟩⟩

/-- A sign behind the mark of a radix is read, and a number that is too large is not. -/
example : readNumber "0x+10".toList = .ofInt 16 ∧
    readNumber "0x10000000000000000".toList = .nan := by decide +kernel

end KeyedRender.Key

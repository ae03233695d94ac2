import KeyedRender.Proofs.Markup.Pattern
import KeyedRender.Proofs.Text.Runs
import Mathlib.Data.List.Basic

/-!
# Every spelling of an attribute

An attribute has only its name, or a value that is quoted or ends at the next blank, with blanks
around the equals sign. A list of attributes with blanks between them is split into their names and
values, however each of them is spelled.
-/
namespace KeyedRender.Markup

open Text

/-- The names that can stand in front of an equals sign. -/
def IsAttributeName (name : String) : Prop :=
  name ≠ "" ∧ ∀ c ∈ name.toList, c ∉ ['\t', '\n', '\x0c', '\r', ' ', '/', '>', '=']

instance (name : String) : Decidable (IsAttributeName name) :=
  have : Decidable (∀ c ∈ name.toList, c ∉ ['\t', '\n', '\x0c', '\r', ' ', '/', '>', '=']) :=
    List.decidableBAll _ _
  inferInstanceAs (Decidable (_ ∧ _))

theorem IsAttributeName.isNameChar {name : String} (h : IsAttributeName name) :
    ∀ c ∈ name.toList, isNameChar c = true := by
  intro c hc
  simpa [isAttributeBlank, Markup.isNameChar, and_assoc] using h.2 c hc

theorem IsAttributeName.toList_ne_nil {name : String} (h : IsAttributeName name) :
    name.toList ≠ [] := by
  simpa using h.1

structure Blanks where
  text : List Char
  subset : text ⊆ ['\t', '\n', '\x0c', '\r', ' ']

/-- A value in one of its quotes, or without quotes if it then has an end of its own. -/
inductive ValueSpelling
  | double (value : List Char) (noQuote : '"' ∉ value)
  | single (value : List Char) (noQuote : '\'' ∉ value)
  | bare (value : List Char) (nonempty : value ≠ [])
      (noEnd : ∀ c ∈ value, c ∉ ['\t', '\n', '\x0c', '\r', ' ', '>'])
      (noQuote : value.head? ≠ some '"' ∧ value.head? ≠ some '\'')

namespace ValueSpelling

def value : ValueSpelling → List Char
  | double value _ | single value _ | bare value .. => value

def text : ValueSpelling → List Char
  | double value _ => '"' :: (value ++ ['"'])
  | single value _ => '\'' :: (value ++ ['\''])
  | bare value .. => value

end ValueSpelling

structure Assignment where
  before : Blanks
  after : Blanks
  spelling : ValueSpelling

def Assignment.text (a : Assignment) : List Char :=
  a.before.text ++ '=' :: (a.after.text ++ a.spelling.text)

structure AttributeSpelling where
  name : String
  isName : IsAttributeName name
  assigned : Option Assignment

namespace AttributeSpelling

def tail (a : AttributeSpelling) : List Char := a.assigned.elim [] Assignment.text

def text (a : AttributeSpelling) : List Char := a.name.toList ++ a.tail

def value (a : AttributeSpelling) : List Char := a.assigned.elim [] (·.spelling.value)

end AttributeSpelling

/-- Attributes, each with the blanks in front of it. -/
def spelledText (items : List (Blanks × AttributeSpelling)) : List Char :=
  items.flatMap fun item => item.1.text ++ item.2.text

section Blanks

theorem Blanks.isAttributeBlank (b : Blanks) : ∀ c ∈ b.text, isAttributeBlank c = true := by
  intro c hc
  simpa [Markup.isAttributeBlank, or_assoc] using b.subset hc

theorem isNameChar_of_blank {c : Char} (h : isAttributeBlank c = true) : isNameChar c = false := by
  simp [isNameChar, h]

theorem isUnquotedChar_of_blank {c : Char} (h : isAttributeBlank c = true) :
    isUnquotedChar c = false := by
  simp [isUnquotedChar, h]

theorem not_blank_of_isNameChar {c : Char} (h : isNameChar c = true) :
    isAttributeBlank c = false := by
  by_contra hblank
  rw [isNameChar_of_blank (by simpa using hblank)] at h
  cases h

theorem not_blank_of_isUnquotedChar {c : Char} (h : isUnquotedChar c = true) :
    isAttributeBlank c = false := by
  by_contra hblank
  rw [isUnquotedChar_of_blank (by simpa using hblank)] at h
  cases h

end Blanks

/-- What may be behind an attribute: nothing, or blanks and then no equals sign. -/
structure Separated (rest : List Char) : Prop where
  blank : ∀ c ∈ rest.head?, isAttributeBlank c = true
  noEquals : ∀ c ∈ (rest.dropWhile isAttributeBlank).head?, c ≠ '='

theorem rawAttributes_dropBlanks (text : List Char) :
    rawAttributes (text.dropWhile isAttributeBlank) = rawAttributes text := by
  induction text with
  | nil => rfl
  | cons c rest ih =>
    by_cases hc : isAttributeBlank c
    · rw [List.dropWhile_cons_of_pos hc, ih, rawAttributes.eq_2,
        if_neg (by simp [isNameChar_of_blank hc])]
    · rw [List.dropWhile_cons_of_neg hc]

theorem rawAttributes_blanks (b : Blanks) (rest : List Char) :
    rawAttributes (b.text ++ rest) = rawAttributes rest := by
  rw [← rawAttributes_dropBlanks, List.dropWhile_append_of_pos b.isAttributeBlank,
    rawAttributes_dropBlanks]

namespace ValueSpelling

theorem isUnquotedChar_of_not_mem {c : Char}
    (h : c ∉ ['\t', '\n', '\x0c', '\r', ' ', '>']) : isUnquotedChar c = true := by
  simpa [isUnquotedChar, isAttributeBlank, and_assoc] using h

theorem not_blank_head (s : ValueSpelling) (rest : List Char) :
    ∀ c ∈ (s.text ++ rest).head?, isAttributeBlank c = false := by
  cases s with
  | double value _ => simp [text, isAttributeBlank]
  | single value _ => simp [text, isAttributeBlank]
  | bare value nonempty noEnd _ =>
    obtain ⟨c, more, rfl⟩ := List.exists_cons_of_ne_nil nonempty
    have hc := isUnquotedChar_of_not_mem (noEnd c List.mem_cons_self)
    simpa [text] using not_blank_of_isUnquotedChar hc

theorem takeValue_text (s : ValueSpelling) {rest : List Char}
    (hrest : ∀ c ∈ rest.head?, isAttributeBlank c = true) :
    takeValue (s.text ++ rest) = (s.value, rest) := by
  have hquoted : ∀ (quote : Char) (value : List Char), quote ∉ value →
      (value ++ quote :: rest).takeWhile (· != quote) = value ∧
        (value ++ quote :: rest).dropWhile (· != quote) = quote :: rest := by
    intro quote value h
    have hvalue : ∀ c ∈ value, (c != quote) = true :=
      fun c hc => bne_iff_ne.2 fun heq => h (heq ▸ hc)
    have hstop : ∀ c ∈ (quote :: rest).head?, (c != quote) = false := by simp
    exact ⟨takeWhile_run hvalue hstop, dropWhile_run hvalue hstop⟩
  cases s with
  | double value noQuote =>
    obtain ⟨htake, hdrop⟩ := hquoted '"' value noQuote
    simp [text, takeValue, ValueSpelling.value, htake, hdrop]
  | single value noQuote =>
    obtain ⟨htake, hdrop⟩ := hquoted '\'' value noQuote
    simp [text, takeValue, ValueSpelling.value, htake, hdrop]
  | bare value nonempty noEnd noQuote =>
    have hvalue : ∀ c ∈ value, isUnquotedChar c = true :=
      fun c hc => isUnquotedChar_of_not_mem (noEnd c hc)
    have hstop : ∀ c ∈ rest.head?, isUnquotedChar c = false :=
      fun c hc => isUnquotedChar_of_blank (hrest c hc)
    have hbare : takeValue (value ++ rest) =
        ((value ++ rest).takeWhile isUnquotedChar, (value ++ rest).dropWhile isUnquotedChar) := by
      obtain ⟨c, more, rfl⟩ := List.exists_cons_of_ne_nil nonempty
      simp only [List.head?_cons, ne_eq, Option.some.injEq] at noQuote
      rw [takeValue.eq_3 _ (by simp [noQuote.1]) (by simp [noQuote.2])]
    rw [text, hbare, takeWhile_run hvalue hstop, dropWhile_run hvalue hstop, ValueSpelling.value]

end ValueSpelling

theorem Assignment.takeAssignment_text (a : Assignment) {rest : List Char}
    (hrest : ∀ c ∈ rest.head?, isAttributeBlank c = true) :
    takeAssignment (a.text ++ rest) = (a.spelling.value, rest) := by
  have htext : a.text ++ rest =
      a.before.text ++ '=' :: (a.after.text ++ (a.spelling.text ++ rest)) := by
    simp [text]
  have hequals : (a.text ++ rest).dropWhile isAttributeBlank =
      '=' :: (a.after.text ++ (a.spelling.text ++ rest)) := by
    rw [htext]
    exact dropWhile_run a.before.isAttributeBlank (by simp [isAttributeBlank])
  rw [takeAssignment, hequals]
  simp only [dropWhile_run a.after.isAttributeBlank (a.spelling.not_blank_head rest)]
  exact a.spelling.takeValue_text hrest

theorem takeAssignment_separated {rest : List Char} (h : Separated rest) :
    takeAssignment rest = ([], rest.dropWhile isAttributeBlank) := by
  rw [takeAssignment]
  split
  · next behind heq => exact absurd rfl (h.noEquals '=' (by rw [heq]; rfl))
  · rfl

namespace AttributeSpelling

theorem not_name_head_tail (a : AttributeSpelling) {rest : List Char} (h : Separated rest) :
    ∀ c ∈ (a.tail ++ rest).head?, isNameChar c = false := by
  rw [tail]
  cases a.assigned with
  | none => exact fun c hc => isNameChar_of_blank (h.blank c hc)
  | some assigned =>
    cases hbefore : assigned.before.text with
    | nil => simp [Assignment.text, hbefore, isNameChar]
    | cons b blanks =>
      have hb := assigned.before.isAttributeBlank b (hbefore ▸ List.mem_cons_self)
      simp [Assignment.text, hbefore, isNameChar_of_blank hb]

theorem rawAttributes_text (a : AttributeSpelling) {rest : List Char} (h : Separated rest) :
    rawAttributes (a.text ++ rest) = (a.name.toList, a.value) :: rawAttributes rest := by
  obtain ⟨c, letters, hname⟩ := List.exists_cons_of_ne_nil a.isName.toList_ne_nil
  have hchars := a.isName.isNameChar
  rw [hname] at hchars
  have hletters : ∀ d ∈ letters, isNameChar d = true :=
    fun d hd => hchars d (List.mem_cons_of_mem c hd)
  have hstop := a.not_name_head_tail h
  have hread : rawAttributes (a.text ++ rest) =
      (a.name.toList, (takeAssignment (a.tail ++ rest)).1) ::
        rawAttributes (takeAssignment (a.tail ++ rest)).2 := by
    rw [text, hname, List.append_assoc, List.cons_append, rawAttributes.eq_2,
      if_pos (hchars c List.mem_cons_self)]
    simp only [takeWhile_run hletters hstop, dropWhile_run hletters hstop]
  rw [hread, tail, value]
  cases a.assigned with
  | none =>
    simp only [Option.elim_none, List.nil_append, takeAssignment_separated h]
    rw [rawAttributes_dropBlanks]
  | some assigned => simp only [Option.elim_some, assigned.takeAssignment_text h.blank]

end AttributeSpelling

theorem Blanks.separated (b : Blanks) : Separated b.text := by
  refine ⟨fun c hc => b.isAttributeBlank c (List.mem_of_mem_head? hc), ?_⟩
  have hnone : (b.text ++ []).dropWhile Markup.isAttributeBlank = [] :=
    dropWhile_run b.isAttributeBlank (by simp)
  rw [List.append_nil] at hnone
  simp [hnone]

theorem Blanks.separated_attribute {b : Blanks} (h : b.text ≠ []) (a : AttributeSpelling)
    (rest : List Char) : Separated (b.text ++ a.text ++ rest) := by
  obtain ⟨c, letters, hname⟩ := List.exists_cons_of_ne_nil a.isName.toList_ne_nil
  have hc : isNameChar c = true := a.isName.isNameChar c (hname ▸ List.mem_cons_self)
  have hhead : (a.text ++ rest).head? = some c := by simp [AttributeSpelling.text, hname]
  refine ⟨fun d hd => b.isAttributeBlank d ?_, fun d hd heq => ?_⟩
  · rw [List.append_assoc, List.head?_append_of_ne_nil _ h] at hd
    exact List.mem_of_mem_head? hd
  · rw [List.append_assoc, dropWhile_run b.isAttributeBlank ?_, hhead, Option.mem_some_iff] at hd
    · rw [hd, heq] at hc
      exact absurd hc (by decide)
    · rw [hhead]
      exact fun e he => Option.mem_some_iff.1 he ▸ not_blank_of_isNameChar hc

theorem rawAttributes_spelledText (items : List (Blanks × AttributeSpelling)) (trailing : Blanks)
    (hgaps : ∀ item ∈ items.tail, item.1.text ≠ []) :
    rawAttributes (spelledText items ++ trailing.text) =
      items.map fun item => (item.2.name.toList, item.2.value) := by
  induction items with
  | nil =>
    rw [spelledText, List.flatMap_nil, List.nil_append, ← List.append_nil trailing.text,
      rawAttributes_blanks, rawAttributes]
    rfl
  | cons item items ih =>
    have hrest : Separated (spelledText items ++ trailing.text) := by
      cases items with
      | nil => exact trailing.separated
      | cons next items =>
        rw [spelledText, List.flatMap_cons, List.append_assoc]
        exact Blanks.separated_attribute (hgaps next List.mem_cons_self) next.2 _
    have htext : spelledText (item :: items) ++ trailing.text =
        item.1.text ++ (item.2.text ++ (spelledText items ++ trailing.text)) := by
      simp [spelledText]
    rw [htext, rawAttributes_blanks, item.2.rawAttributes_text hrest,
      ih fun next hnext => hgaps next (List.mem_of_mem_tail hnext), List.map_cons]

/-- Attributes with blanks between them are split into exactly their names in order, each with its
value without character references, and the pattern for attributes captures just these names and
values. -/
theorem splitAttributes_spelledText (items : List (Blanks × AttributeSpelling)) (trailing : Blanks)
    (hgaps : ∀ item ∈ items.tail, item.1.text ≠ []) :
    splitAttributes (String.ofList (spelledText items ++ trailing.text)) =
        (items.map fun item => (item.2.name, String.ofList (unescape item.2.value))) ∧
      ((Pattern.nameAndValue.captures (spelledText items ++ trailing.text)).map fun groups =>
          (Pattern.nameOf groups, Pattern.valueOf groups)) =
        items.map fun item => (item.2.name.toList, item.2.value) := by
  have hraw := rawAttributes_spelledText items trailing hgaps
  refine ⟨?_, (rawAttributes_eq_captures _).symm.trans hraw⟩
  rw [splitAttributes, String.toList_ofList, hraw, List.map_map]
  simp [Function.comp_def]

/-- Each way to spell an attribute, with a quote of the other kind, a slash and an equals sign in
values, and a name that is followed by blanks only. -/
def mixedSpellings : List (Blanks × AttributeSpelling) :=
  [(⟨[], by simp⟩, ⟨"a", by decide, some ⟨⟨[' '], by simp⟩, ⟨['\n'], by simp⟩,
      .double "it's &lt;/p>".toList (by decide)⟩⟩),
    (⟨[' ', '\t'], by simp⟩, ⟨"b\"", by decide, none⟩),
    (⟨['\x0c'], by simp⟩, ⟨"href", by decide, some ⟨⟨[], by simp⟩, ⟨[], by simp⟩,
      .bare "/x?y='1'".toList (by decide) (by simp) (by decide)⟩⟩),
    (⟨['\r'], by simp⟩, ⟨"é", by decide, some ⟨⟨[], by simp⟩, ⟨[' '], by simp⟩,
      .single "\"&#x41;\"".toList (by decide)⟩⟩)]

theorem splitAttributes_mixedSpellings :
    spelledText mixedSpellings ++ ['\n'] =
        "a =\n\"it's &lt;/p>\" \tb\"\x0chref=/x?y='1'\ré= '\"&#x41;\"'\n".toList ∧
      splitAttributes (String.ofList (spelledText mixedSpellings ++ ['\n'])) =
        [("a", "it's </p>"), ("b\"", ""), ("href", "/x?y='1'"), ("é", "\"A\"")] := by
  refine ⟨by decide, ?_⟩
  rw [(splitAttributes_spelledText mixedSpellings ⟨['\n'], by simp⟩ (by decide)).1]
  decide +kernel

end KeyedRender.Markup

import KeyedRender.Markup.Attributes

/-!
# Attributes as matches of a pattern

Splitting attribute markup is reading the groups of the matches of one pattern from left to right.
A pattern has its outcomes in order of preference: repetitions take as much as they can, of two
patterns the first comes first. The match is the first outcome at the first place that has one, and
the next one is looked for behind it.
-/
namespace KeyedRender.Markup

inductive Pattern
  | one (accepts : Char → Bool)
  | many (accepts : Char → Bool)
  | seq (first second : Pattern)
  | either (first second : Pattern)
  | maybe (inner : Pattern)
  | group (number : Nat) (inner : Pattern)

namespace Pattern

abbrev Outcome := List (Nat × List Char) × List Char

/-- What can be left behind a run of characters, longest run first. -/
def behindRuns (accepts : Char → Bool) : List Char → List (List Char)
  | [] => [[]]
  | c :: rest => if accepts c then behindRuns accepts rest ++ [c :: rest] else [c :: rest]

def outcomes : Pattern → List Char → List Outcome
  | one accepts, text =>
    match text with
    | [] => []
    | c :: rest => if accepts c then [([], rest)] else []
  | many accepts, text => (behindRuns accepts text).map fun rest => ([], rest)
  | seq first second, text =>
    (first.outcomes text).flatMap fun found =>
      (second.outcomes found.2).map fun more => (found.1 ++ more.1, more.2)
  | either first second, text => first.outcomes text ++ second.outcomes text
  | maybe inner, text => inner.outcomes text ++ [([], text)]
  | group number inner, text =>
    (inner.outcomes text).map fun found =>
      ((number, text.take (text.length - found.2.length)) :: found.1, found.2)

def first? (p : Pattern) (text : List Char) : Option Outcome := (p.outcomes text).head?

section Equations

variable (p q : Pattern) (accepts : Char → Bool) (number : Nat) (text : List Char)

theorem first?_eq_head? : p.first? text = (p.outcomes text).head? := rfl

@[simp] theorem outcomes_one (c : Char) (rest : List Char) :
    (one accepts).outcomes (c :: rest) = if accepts c then [([], rest)] else [] := rfl

@[simp] theorem outcomes_many : (many accepts).outcomes text =
    (behindRuns accepts text).map fun rest => ([], rest) := rfl

@[simp] theorem outcomes_seq : (seq p q).outcomes text =
    (p.outcomes text).flatMap fun found =>
      (q.outcomes found.2).map fun more => (found.1 ++ more.1, more.2) := rfl

@[simp] theorem outcomes_either :
    (either p q).outcomes text = p.outcomes text ++ q.outcomes text := rfl

@[simp] theorem outcomes_maybe :
    (maybe p).outcomes text = p.outcomes text ++ [([], text)] := rfl

@[simp] theorem outcomes_group : (group number p).outcomes text =
    (p.outcomes text).map fun found =>
      ((number, text.take (text.length - found.2.length)) :: found.1, found.2) := rfl

end Equations

/-- The groups of all matches from left to right, of a pattern that takes at least a character. -/
def captures (p : Pattern) : List Char → List (List (Nat × List Char))
  | [] => []
  | c :: rest =>
    match p.first? (c :: rest) with
    | some (groups, after) =>
      if _h : after.length ≤ rest.length then groups :: p.captures after else p.captures rest
    | none => p.captures rest
termination_by text => text.length
decreasing_by all_goals simp only [List.length_cons]; omega

section First

variable {accepts : Char → Bool} {p q : Pattern} {text rest after : List Char}
  {groups more : List (Nat × List Char)}

theorem first?_eq_none_iff : p.first? text = none ↔ p.outcomes text = [] := List.head?_eq_none_iff

theorem first?_one {c : Char} (h : accepts c = true) :
    (one accepts).first? (c :: rest) = some ([], rest) := by
  simp [first?_eq_head?, h]

theorem first?_one_none {c : Char} (h : accepts c = false) :
    (one accepts).first? (c :: rest) = none := by
  simp [first?_eq_head?, h]

theorem head?_behindRuns (accepts : Char → Bool) (text : List Char) :
    (behindRuns accepts text).head? = some (text.dropWhile accepts) := by
  induction text with
  | nil => rfl
  | cons c rest ih =>
    by_cases hc : accepts c <;> simp [behindRuns, hc, ih]

theorem first?_many (accepts : Char → Bool) (text : List Char) :
    (many accepts).first? text = some ([], text.dropWhile accepts) := by
  simp [first?_eq_head?, head?_behindRuns]

theorem first?_seq (hp : p.first? text = some (groups, rest))
    (hq : q.first? rest = some (more, after)) :
    (seq p q).first? text = some (groups ++ more, after) := by
  obtain ⟨others, hothers⟩ := List.head?_eq_some_iff.1 hp
  obtain ⟨behind, hbehind⟩ := List.head?_eq_some_iff.1 hq
  simp [first?_eq_head?, hothers, hbehind]

theorem first?_seq_none (hp : p.first? text = none) : (seq p q).first? text = none := by
  simp [first?_eq_head?, first?_eq_none_iff.1 hp]

theorem first?_either (hp : p.first? text = some (groups, rest)) :
    (either p q).first? text = some (groups, rest) := by
  obtain ⟨others, hothers⟩ := List.head?_eq_some_iff.1 hp
  simp [first?_eq_head?, hothers]

theorem first?_either_none (hp : p.first? text = none) :
    (either p q).first? text = q.first? text := by
  simp [first?_eq_head?, first?_eq_none_iff.1 hp]

theorem first?_maybe (hp : p.first? text = some (groups, rest)) :
    (maybe p).first? text = some (groups, rest) := by
  obtain ⟨others, hothers⟩ := List.head?_eq_some_iff.1 hp
  simp [first?_eq_head?, hothers]

theorem first?_maybe_none (hp : p.first? text = none) :
    (maybe p).first? text = some ([], text) := by
  simp [first?_eq_head?, first?_eq_none_iff.1 hp]

theorem first?_group {number : Nat} (hp : p.first? text = some (groups, rest)) :
    (group number p).first? text =
      some ((number, text.take (text.length - rest.length)) :: groups, rest) := by
  obtain ⟨others, hothers⟩ := List.head?_eq_some_iff.1 hp
  simp [first?_eq_head?, hothers]

theorem first?_group_none {number : Nat} (hp : p.first? text = none) :
    (group number p).first? text = none := by
  simp [first?_eq_head?, first?_eq_none_iff.1 hp]

theorem take_sub_length_dropWhile (accepts : Char → Bool) (text : List Char) :
    text.take (text.length - (text.dropWhile accepts).length) = text.takeWhile accepts := by
  have hsplit : text.takeWhile accepts ++ text.dropWhile accepts = text :=
    List.takeWhile_append_dropWhile
  have hlength := congrArg List.length hsplit
  rw [List.length_append] at hlength
  have hsub : text.length - (text.dropWhile accepts).length =
      (text.takeWhile accepts).length := by omega
  rw [hsub]
  exact (List.prefix_iff_eq_take.1 (List.takeWhile_prefix accepts)).symm

theorem first?_group_many (number : Nat) (accepts : Char → Bool) (text : List Char) :
    (group number (many accepts)).first? text =
      some ([(number, text.takeWhile accepts)], text.dropWhile accepts) := by
  rw [first?_group (first?_many accepts text), take_sub_length_dropWhile]

end First

/-- A quoted value, whose closing quote may be missing. -/
def quoted (number : Nat) (quote : Char) : Pattern :=
  .seq (.one (· == quote)) (.seq (.group number (.many (· != quote))) (.maybe (.one (· == quote))))

def value : Pattern :=
  .either (quoted 2 '"') (.either (quoted 3 '\'') (.group 4 (.many isUnquotedChar)))

def assignment : Pattern := .seq (.one (· == '=')) (.seq (.many isAttributeBlank) value)

def nameAndValue : Pattern :=
  .seq (.group 1 (.seq (.one isNameChar) (.many isNameChar)))
    (.seq (.many isAttributeBlank) (.maybe assignment))

def nameOf (groups : List (Nat × List Char)) : List Char := (groups.lookup 1).getD []

/-- The value is in the one of three groups that took part in the match, if any did. -/
def valueOf (groups : List (Nat × List Char)) : List Char :=
  (groups.lookup 2 <|> groups.lookup 3 <|> groups.lookup 4).getD []

theorem first?_quoted (number : Nat) (quote : Char) (rest : List Char) :
    (quoted number quote).first? (quote :: rest) =
      some ([(number, rest.takeWhile (· != quote))], (rest.dropWhile (· != quote)).tail) := by
  have hclose : (maybe (one (· == quote))).first? (rest.dropWhile (· != quote)) =
      some ([], (rest.dropWhile (· != quote)).tail) := by
    cases hbehind : rest.dropWhile (· != quote) with
    | nil => exact first?_maybe_none rfl
    | cons c after =>
      have hc : (c != quote) = false := by
        have hhead := List.head?_dropWhile_not (· != quote) rest
        rwa [hbehind] at hhead
      exact first?_maybe (first?_one (by simpa using hc))
  exact first?_seq (first?_one (beq_self_eq_true quote))
    (first?_seq (first?_group_many number _ rest) hclose)

theorem first?_quoted_none {number : Nat} {quote c : Char} (h : c ≠ quote) (rest : List Char) :
    (quoted number quote).first? (c :: rest) = none :=
  first?_seq_none (first?_one_none (beq_false_of_ne h))

theorem first?_value (text : List Char) :
    ∃ number ∈ [2, 3, 4],
      value.first? text = some ([(number, (takeValue text).1)], (takeValue text).2) := by
  unfold takeValue
  split
  · exact ⟨2, by simp, first?_either (first?_quoted 2 '"' _)⟩
  · refine ⟨3, by simp, ?_⟩
    rw [value, first?_either_none (first?_quoted_none (by decide) _)]
    exact first?_either (first?_quoted 3 '\'' _)
  · next hdouble hsingle =>
    refine ⟨4, by simp, ?_⟩
    have hnone : ∀ number quote, (∀ rest, text ≠ quote :: rest) →
        (quoted number quote).first? text = none := by
      intro number quote hne
      cases text with
      | nil => rfl
      | cons c rest => exact first?_quoted_none (fun heq => hne rest (by rw [heq])) rest
    rw [value, first?_either_none (hnone 2 '"' hdouble), first?_either_none (hnone 3 '\'' hsingle)]
    exact first?_group_many 4 _ text

theorem first?_nameAndValue {c : Char} (h : isNameChar c = true) (rest : List Char) :
    ∃ groups, nameAndValue.first? (c :: rest) =
        some (groups, (takeAssignment (rest.dropWhile isNameChar)).2) ∧
      nameOf groups = c :: rest.takeWhile isNameChar ∧
      valueOf groups = (takeAssignment (rest.dropWhile isNameChar)).1 := by
  have hname : (group 1 (seq (one isNameChar) (many isNameChar))).first? (c :: rest) =
      some ([(1, c :: rest.takeWhile isNameChar)], rest.dropWhile isNameChar) := by
    have hsplit : c :: rest.takeWhile isNameChar = (c :: rest).takeWhile isNameChar := by simp [h]
    have hbehind : rest.dropWhile isNameChar = (c :: rest).dropWhile isNameChar := by simp [h]
    rw [first?_group (first?_seq (first?_one h) (first?_many isNameChar rest)), hsplit, hbehind,
      take_sub_length_dropWhile]
    rfl
  have hblank := first?_many isAttributeBlank (rest.dropWhile isNameChar)
  unfold takeAssignment
  split
  · next behind heq =>
    obtain ⟨number, hnumber, hvalue⟩ := first?_value (behind.dropWhile isAttributeBlank)
    have hequals : (one (· == '=')).first? ('=' :: behind) = some ([], behind) := first?_one rfl
    have hassigned := first?_maybe (first?_seq hequals
      (first?_seq (first?_many isAttributeBlank behind) hvalue))
    refine ⟨_, first?_seq hname (first?_seq hblank (heq ▸ hassigned)), rfl, ?_⟩
    simp only [List.mem_cons, List.not_mem_nil, or_false] at hnumber
    rcases hnumber with rfl | rfl | rfl <;> rfl
  · next hne =>
    have hnone : assignment.first? ((rest.dropWhile isNameChar).dropWhile isAttributeBlank) =
        none := by
      refine first?_seq_none ?_
      cases hbehind : (rest.dropWhile isNameChar).dropWhile isAttributeBlank with
      | nil => rfl
      | cons d behind =>
        exact first?_one_none (beq_false_of_ne fun heq => hne behind (heq ▸ hbehind))
    exact ⟨_, first?_seq hname (first?_seq hblank (first?_maybe_none hnone)), rfl, rfl⟩

theorem first?_nameAndValue_none {c : Char} (h : isNameChar c = false) (rest : List Char) :
    nameAndValue.first? (c :: rest) = none := by
  have hname : (one isNameChar).first? (c :: rest) = none := first?_one_none h
  exact first?_seq_none (first?_group_none (first?_seq_none hname))

end Pattern

open Pattern in
/-- Scanning attribute markup reads off the names and values of the matches of one pattern. -/
theorem rawAttributes_eq_captures (text : List Char) :
    rawAttributes text = (nameAndValue.captures text).map fun groups =>
      (nameOf groups, valueOf groups) := by
  induction text using rawAttributes.induct with
  | case1 => rw [rawAttributes, captures]; rfl
  | case2 c rest hc assigned ih =>
    obtain ⟨groups, hfirst, hname, hvalue⟩ := first?_nameAndValue hc rest
    have hshorter : (takeAssignment (rest.dropWhile isNameChar)).2.length ≤ rest.length :=
      Nat.le_trans (takeAssignment_length_le _) (length_dropWhile_le isNameChar rest)
    rw [rawAttributes, if_pos hc, captures, hfirst]
    simp only [dif_pos hshorter, List.map_cons, hname, hvalue]
    rw [ih]
  | case3 c rest hc ih =>
    rw [rawAttributes, if_neg hc, captures,
      first?_nameAndValue_none (Bool.eq_false_iff.2 hc) rest]
    exact ih

end KeyedRender.Markup

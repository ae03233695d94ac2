import KeyedRender.Markup.Entity

/-!
# Escaped text

Escaped text reads back. The reference written for a character ends at its own semicolon, so what
comes behind it is read on its own, whatever it looks like. Escaped for an attribute, text has no
double quote.
-/
namespace KeyedRender.Markup

theorem toSemicolon?_append {name : List Char} (h : ';' ∉ name) (after : List Char) :
    toSemicolon? (name ++ ';' :: after) = some (name, after) := by
  induction name with
  | nil => simp [toSemicolon?]
  | cons c name ih =>
    simp only [List.mem_cons, not_or] at h
    simp [toSemicolon?, Ne.symm h.1, ih h.2]

theorem reference?_entity {name : List Char} {c : Char} (h : ';' ∉ name)
    (hname : entity? name = some c) (after : List Char) :
    reference? (name ++ ';' :: after) = some (c, after) := by
  simp [reference?, toSemicolon?_append h, hname]

theorem unescape_nil : unescape [] = [] := by rw [unescape]

theorem unescape_reference {text after : List Char} {c : Char}
    (h : reference? text = some (c, after)) : unescape ('&' :: text) = c :: unescape after := by
  rw [unescape, if_pos rfl]
  split
  · next heq => rw [h] at heq; cases heq; rfl
  · next heq => rw [h] at heq; cases heq

theorem unescape_cons_of_ne {c : Char} (h : c ≠ '&') (text : List Char) :
    unescape (c :: text) = c :: unescape text := by
  rw [unescape, if_neg h]

theorem escape_cons (place : Place) (c : Char) (text : List Char) :
    escape place (c :: text) = escapeChar place c ++ escape place text := rfl

theorem escapeChar_cases (place : Place) (c : Char) :
    (∃ name, ';' ∉ name ∧ '"' ∉ name ∧ entity? name = some c ∧
      escapeChar place c = '&' :: name ++ [';']) ∨
    (c ≠ '&' ∧ (place = .value → c ≠ '"') ∧ escapeChar place c = [c]) := by
  unfold escapeChar
  split
  · next h => exact .inl ⟨"amp".toList, by decide, by decide, by rw [h]; decide, rfl⟩
  split
  · next h => exact .inl ⟨"quot".toList, by decide, by decide, by rw [h.1]; decide, rfl⟩
  split
  · next h => exact .inl ⟨"lt".toList, by decide, by decide, by rw [h.1]; decide, rfl⟩
  split
  · next h => exact .inl ⟨"gt".toList, by decide, by decide, by rw [h.1]; decide, rfl⟩
  split
  · next h => exact .inl ⟨"nbsp".toList, by decide, by decide, by rw [h]; decide, rfl⟩
  · next hamp hquot _ _ _ => exact .inr ⟨hamp, fun hplace hc => hquot ⟨hc, hplace⟩, rfl⟩

theorem unescape_escapeChar (place : Place) (c : Char) (after : List Char) :
    unescape (escapeChar place c ++ after) = c :: unescape after := by
  obtain ⟨name, hsemi, -, hname, heq⟩ | ⟨hc, -, heq⟩ := escapeChar_cases place c
  · have href := reference?_entity hsemi hname after
    simpa [heq] using unescape_reference href
  · simpa [heq] using unescape_cons_of_ne hc after

theorem unescape_escape (place : Place) (text : List Char) :
    unescape (escape place text) = text := by
  induction text with
  | nil => exact unescape_nil
  | cons c text ih => rw [escape_cons, unescape_escapeChar, ih]

theorem quote_not_mem_escape (text : List Char) : '"' ∉ escape .value text := by
  intro hmem
  obtain ⟨c, -, hc⟩ := List.mem_flatMap.1 hmem
  obtain ⟨name, -, hquote, -, heq⟩ | ⟨-, hquote, heq⟩ := escapeChar_cases .value c
  · rw [heq] at hc
    simp [hquote] at hc
  · rw [heq, List.mem_singleton] at hc
    exact hquote rfl hc.symm

end KeyedRender.Markup

import KeyedRender.Proofs.Markup.Escaping
import KeyedRender.Proofs.Text.Numerals

/-!
# Character references

A reference is the name of a character or its number, between an ampersand and a semicolon, and
decoding replaces the references of a text from left to right. The digits of a number are read with
a plus sign in front of them as well, which is no reference. So a text is decoded as it should be
exactly if it has no such sign behind a number sign.
-/
namespace KeyedRender.Markup

open Text (Numeral)

def characterNames : List (List Char × Char) :=
  [("amp".toList, '&'), ("lt".toList, '<'), ("gt".toList, '>'), ("quot".toList, '"'),
    ("apos".toList, '\''), ("nbsp".toList, '\u00a0')]

/-- The number of a character, with a sign in front of its digits. -/
inductive Numbered (sign : List Char) : List Char → Char → Prop
  | decimal {digits : List Char} {c : Char} :
      Numeral 10 digits c.toNat → Numbered sign ('#' :: (sign ++ digits)) c
  | hexadecimal {mark : Char} {digits : List Char} {c : Char} : mark ∈ ['x', 'X'] →
      Numeral 16 digits c.toNat → Numbered sign ('#' :: mark :: (sign ++ digits)) c

/-- What names a character between an ampersand and a semicolon. -/
def IsReference (name : List Char) (c : Char) : Prop :=
  (name, c) ∈ characterNames ∨ Numbered [] name c

/-- What is read as the name of a character. -/
def IsReadReference (name : List Char) (c : Char) : Prop :=
  IsReference name c ∨ Numbered ['+'] name c

/-- Whether one of some references is at the front of a text. -/
def Starts (refers : List Char → Char → Prop) (text : List Char) : Prop :=
  ∃ name c rest, text = '&' :: (name ++ ';' :: rest) ∧ refers name c

/-- A text with its references replaced by their characters, from left to right. Whatever starts no
reference is kept as it is. -/
inductive Decodes (refers : List Char → Char → Prop) : List Char → List Char → Prop
  | nil : Decodes refers [] []
  | reference {name rest decoded : List Char} {c : Char} : refers name c →
      Decodes refers rest decoded → Decodes refers ('&' :: (name ++ ';' :: rest)) (c :: decoded)
  | kept {c : Char} {rest decoded : List Char} : ¬ Starts refers (c :: rest) →
      Decodes refers rest decoded → Decodes refers (c :: rest) (c :: decoded)

section Reading

variable {name number : List Char} {c : Char}

theorem scalar?_eq_some_iff {code : Nat} : scalar? code = some c ↔ code = c.toNat := by
  by_cases h : code.isValidChar
  · rw [scalar?, dif_pos h, Option.some.injEq]
    constructor
    · rintro rfl
      rfl
    · rintro rfl
      exact Char.toNat_inj.1 rfl
  · rw [scalar?, dif_neg h, iff_false_left (Option.some_ne_none c).symm]
    rintro rfl
    exact h c.valid

theorem wholeNumber?_scalar_iff {radix : Nat} {text : List Char} (hradix : radix ≤ 16) :
    (Text.wholeNumber? radix Text.words32 text).bind scalar? = some c ↔
      ∃ sign ∈ [[], ['+']], ∃ digits, text = sign ++ digits ∧ Numeral radix digits c.toNat := by
  have hbound : c.toNat < Text.words32 := c.val.toBitVec.isLt
  simp only [Option.bind_eq_some_iff, scalar?_eq_some_iff, exists_eq_right,
    Text.wholeNumber?_eq_some_iff hradix, hbound, and_true]

theorem numbered_iff {sign : List Char} : Numbered sign ('#' :: number) c ↔
    (∃ digits, number = sign ++ digits ∧ Numeral 10 digits c.toNat) ∨
      ∃ mark ∈ ['x', 'X'], ∃ digits, number = mark :: (sign ++ digits) ∧
        Numeral 16 digits c.toNat := by
  constructor
  · intro h
    cases h with
    | decimal h => exact .inl ⟨_, rfl, h⟩
    | hexadecimal hmark h => exact .inr ⟨_, hmark, _, rfl, h⟩
  · rintro (⟨digits, rfl, h⟩ | ⟨mark, hmark, digits, rfl, h⟩)
    · exact .decimal h
    · exact .hexadecimal hmark h

theorem notMem_numeral {radix n : Nat} {digits : List Char} (hradix : radix ≤ 16)
    (h : Numeral radix digits n) : ∀ c ∈ ['x', 'X', ';', '&', '+'], c ∉ digits := by
  have hmarks : ∀ c ∈ ['x', 'X', ';', '&', '+'], Text.digitValue? 16 c = none := by
    simp only [List.forall_mem_cons, List.not_mem_nil, false_implies, implies_true, and_true]
    decide
  exact fun c hc => h.notMem hradix (hmarks c hc)

theorem numbered?_eq_some_iff :
    numbered? number = some c ↔ ∃ sign ∈ [[], ['+']], Numbered sign ('#' :: number) c := by
  have hmarked : ∀ {mark digits}, mark ∈ ['x', 'X'] →
      ((Text.wholeNumber? 16 Text.words32 digits).bind scalar? = some c ↔
        ∃ sign ∈ [[], ['+']], Numbered sign ('#' :: mark :: digits) c) := by
    intro mark digits hmark
    rw [wholeNumber?_scalar_iff (Nat.le_refl _)]
    refine exists_congr fun sign => and_congr_right fun hsign => ?_
    rw [numbered_iff]
    refine ⟨fun ⟨rest, heq, h⟩ => .inr ⟨mark, hmark, rest, by rw [heq], h⟩, ?_⟩
    rintro (⟨rest, heq, h⟩ | ⟨_, _, rest, heq, h⟩)
    · have hmem : mark ∈ sign ++ rest := heq ▸ List.mem_cons_self
      have hrest := notMem_numeral (by decide) h mark (by grind)
      grind
    · cases heq
      exact ⟨rest, rfl, h⟩
  unfold numbered?
  split
  · exact hmarked (by simp)
  · exact hmarked (by simp)
  · next hx hX =>
    rw [wholeNumber?_scalar_iff (by decide)]
    refine exists_congr fun sign => and_congr_right fun _ => ?_
    rw [numbered_iff]
    refine ⟨.inl, fun h => h.resolve_right ?_⟩
    rintro ⟨mark, hmark, digits, heq, -⟩
    simp only [List.mem_cons, List.not_mem_nil, or_false] at hmark
    rcases hmark with rfl | rfl
    · exact hx _ heq
    · exact hX _ heq

theorem Numbered.head?_eq {sign : List Char} (h : Numbered sign name c) :
    name.head? = some '#' := by
  cases h <;> rfl

theorem isReadReference_iff : IsReadReference name c ↔
    (name, c) ∈ characterNames ∨ ∃ sign ∈ [[], ['+']], Numbered sign name c := by
  simp [IsReadReference, IsReference, or_assoc]

theorem entity?_eq_some_iff_mem (h : name.head? ≠ some '#') :
    entity? name = some c ↔ (name, c) ∈ characterNames := by
  have hunmarked : ∀ number, name ≠ '#' :: number := fun _ heq => h (heq ▸ rfl)
  simp only [entity?, characterNames, List.mem_cons, Prod.mk.injEq, List.not_mem_nil, or_false]
  grind

theorem entity?_eq_some_iff : entity? name = some c ↔ IsReadReference name c := by
  rw [isReadReference_iff]
  by_cases hname : name.head? = some '#'
  · obtain ⟨number, rfl⟩ := List.head?_eq_some_iff.1 hname
    have hwords : ('#' :: number, c) ∉ characterNames := by simp [characterNames]
    rw [or_iff_right hwords, ← numbered?_eq_some_iff]
    rfl
  · have hnumbered : ¬ ∃ sign ∈ [[], ['+']], Numbered sign name c :=
      fun ⟨_, _, h⟩ => hname h.head?_eq
    rw [or_iff_left hnumbered, entity?_eq_some_iff_mem hname]

theorem IsReadReference.notMem (h : IsReadReference name c) : ';' ∉ name ∧ '&' ∉ name := by
  have hdigits : ∀ {radix n digits}, radix ≤ 16 → Numeral radix digits n →
      ';' ∉ digits ∧ '&' ∉ digits := fun hradix h =>
    ⟨notMem_numeral hradix h _ (by simp), notMem_numeral hradix h _ (by simp)⟩
  rcases isReadReference_iff.1 h with h | ⟨sign, hsign, h⟩
  · simp only [characterNames, List.mem_cons, Prod.mk.injEq, List.not_mem_nil, or_false] at h
    rcases h with ⟨rfl, -⟩ | ⟨rfl, -⟩ | ⟨rfl, -⟩ | ⟨rfl, -⟩ | ⟨rfl, -⟩ | ⟨rfl, -⟩ <;> decide
  · cases h with
    | decimal h =>
      have := hdigits (by decide) h
      grind
    | hexadecimal hmark h =>
      have := hdigits (Nat.le_refl _) h
      grind

theorem toSemicolon?_eq_some_iff {text name rest : List Char} :
    toSemicolon? text = some (name, rest) ↔ text = name ++ ';' :: rest ∧ ';' ∉ name := by
  refine ⟨fun h => ?_, fun ⟨heq, hname⟩ => heq ▸ toSemicolon?_append hname rest⟩
  induction text generalizing name with
  | nil => cases h
  | cons c text ih =>
    rw [toSemicolon?] at h
    split at h
    · next hc =>
      cases h
      exact ⟨by rw [hc]; rfl, List.not_mem_nil⟩
    · next hc =>
      obtain ⟨⟨before, after⟩, hsplit, hpair⟩ := Option.map_eq_some_iff.1 h
      cases hpair
      obtain ⟨rfl, hbefore⟩ := ih hsplit
      exact ⟨rfl, by simp [Ne.symm hc, hbefore]⟩

theorem reference?_eq_some_iff {text rest : List Char} : reference? text = some (c, rest) ↔
    ∃ name, text = name ++ ';' :: rest ∧ IsReadReference name c := by
  unfold reference?
  constructor
  · intro h
    split at h
    · cases h
    · next name after hsplit =>
      obtain ⟨d, hd, hpair⟩ := Option.map_eq_some_iff.1 h
      cases hpair
      exact ⟨name, (toSemicolon?_eq_some_iff.1 hsplit).1, entity?_eq_some_iff.1 hd⟩
  · rintro ⟨name, rfl, h⟩
    simp only [toSemicolon?_append h.notMem.1, entity?_eq_some_iff.2 h, Option.map_some]

theorem not_starts {refers : List Char → Char → Prop} {rest : List Char} (hc : c ≠ '&') :
    ¬ Starts refers (c :: rest) := by
  rintro ⟨name, d, after, heq, -⟩
  exact hc (List.cons.inj heq).1

theorem starts_iff {text : List Char} :
    Starts IsReadReference ('&' :: text) ↔ ∃ pair, reference? text = some pair := by
  constructor
  · rintro ⟨name, c, rest, heq, h⟩
    cases heq
    exact ⟨(c, rest), reference?_eq_some_iff.2 ⟨name, rfl, h⟩⟩
  · rintro ⟨⟨c, rest⟩, h⟩
    obtain ⟨name, rfl, href⟩ := reference?_eq_some_iff.1 h
    exact ⟨name, c, rest, rfl, href⟩

theorem unescape_of_none {text : List Char} (h : reference? text = none) :
    unescape ('&' :: text) = '&' :: unescape text := by
  rw [unescape, if_pos rfl]
  split
  · next heq => rw [h] at heq; cases heq
  · rfl

/-- Every text is decoded by what is read as a reference. -/
theorem decodes_unescape (text : List Char) : Decodes IsReadReference text (unescape text) := by
  induction text using unescape.induct with
  | case1 =>
    rw [unescape_nil]
    exact .nil
  | case2 rest c after h ih =>
    rw [unescape_reference h]
    obtain ⟨name, rfl, href⟩ := reference?_eq_some_iff.1 h
    exact .reference href ih
  | case3 rest h ih =>
    rw [unescape_of_none h]
    refine .kept (fun hstarts => ?_) ih
    obtain ⟨pair, hpair⟩ := starts_iff.1 hstarts
    rw [h] at hpair
    cases hpair
  | case4 c rest hc ih =>
    rw [unescape_cons_of_ne hc]
    exact .kept (not_starts hc) ih

end Reading

section Decoding

variable {refers : List Char → Char → Prop}
  {name name' rest rest' text decoded decoded' : List Char}
  {c c' : Char}

theorem IsReadReference.unique (h : IsReadReference name c) (h' : IsReadReference name' c')
    (heq : name ++ ';' :: rest = name' ++ ';' :: rest') : name = name' ∧ c = c' ∧ rest = rest' := by
  have hsplit := toSemicolon?_append h.notMem.1 rest
  rw [heq, toSemicolon?_append h'.notMem.1] at hsplit
  cases hsplit
  rw [← entity?_eq_some_iff] at h h'
  rw [h] at h'
  exact ⟨rfl, Option.some.inj h', rfl⟩

theorem Decodes.of_reference (hrefers : ∀ name c, refers name c → IsReadReference name c)
    (href : refers name c) (h : Decodes refers ('&' :: (name ++ ';' :: rest)) decoded) :
    ∃ decoded', decoded = c :: decoded' ∧ Decodes refers rest decoded' := by
  generalize htext : '&' :: (name ++ ';' :: rest) = text at h
  cases h with
  | nil => cases htext
  | reference href' h =>
    obtain ⟨rfl, rfl, rfl⟩ :=
      (hrefers _ _ href).unique (hrefers _ _ href') (List.cons.inj htext).2
    exact ⟨_, rfl, h⟩
  | kept hnone _ => exact absurd ⟨name, c, rest, htext.symm, href⟩ hnone

theorem Decodes.of_kept (hnone : ¬ Starts refers (c :: rest))
    (h : Decodes refers (c :: rest) decoded) :
    ∃ decoded', decoded = c :: decoded' ∧ Decodes refers rest decoded' := by
  generalize htext : c :: rest = text at h
  cases h with
  | nil => cases htext
  | reference href _ => exact absurd ⟨_, _, _, htext, href⟩ hnone
  | kept _ h =>
    cases htext
    exact ⟨_, rfl, h⟩

/-- Among what is read as references there is one way to decode a text at most. -/
theorem Decodes.unique (hrefers : ∀ name c, refers name c → IsReadReference name c)
    (h : Decodes refers text decoded) (h' : Decodes refers text decoded') : decoded = decoded' := by
  induction h generalizing decoded' with
  | nil =>
    cases h'
    rfl
  | reference href _ ih =>
    obtain ⟨behind, rfl, hbehind⟩ := h'.of_reference hrefers href
    rw [ih hbehind]
  | kept hnone _ ih =>
    obtain ⟨behind, rfl, hbehind⟩ := h'.of_kept hnone
    rw [ih hbehind]

theorem exists_decodes (refers : List Char → Char → Prop) (text : List Char) :
    ∃ decoded, Decodes refers text decoded := by
  induction hlength : text.length using Nat.strong_induction_on generalizing text with
  | _ n ih =>
    subst hlength
    by_cases hstarts : Starts refers text
    · obtain ⟨name, c, rest, rfl, href⟩ := hstarts
      obtain ⟨decoded, h⟩ := ih rest.length (by grind) rest rfl
      exact ⟨_, .reference href h⟩
    · cases text with
      | nil => exact ⟨_, .nil⟩
      | cons c rest =>
        obtain ⟨decoded, h⟩ := ih rest.length (by simp) rest rfl
        exact ⟨_, .kept hstarts h⟩

theorem Decodes.of_append (hname : '&' ∉ name) (h : Decodes refers (name ++ rest) decoded) :
    ∃ decoded', decoded = name ++ decoded' ∧ Decodes refers rest decoded' := by
  induction name generalizing decoded with
  | nil => exact ⟨decoded, rfl, h⟩
  | cons c name ih =>
    rw [List.mem_cons, not_or] at hname
    obtain ⟨behind, rfl, hbehind⟩ := h.of_kept (not_starts (Ne.symm hname.1))
    obtain ⟨decoded', rfl, hdecoded⟩ := ih hname.2 hbehind
    exact ⟨decoded', rfl, hdecoded⟩

end Decoding

section Signed

variable {name rest text decoded decoded' : List Char} {c c' : Char}

/-- Whether a text has what would be a reference without the plus sign in front of its digits. -/
def HasSigned (text : List Char) : Prop :=
  ∃ name c, Numbered ['+'] name c ∧ '&' :: (name ++ [';']) <:+: text

theorem HasSigned.of_cons (h : HasSigned (c :: text)) :
    (∃ name d rest, Numbered ['+'] name d ∧ c :: text = '&' :: (name ++ ';' :: rest)) ∨
      HasSigned text := by
  obtain ⟨name, d, hsigned, hinfix⟩ := h
  rcases List.infix_cons_iff.1 hinfix with ⟨rest, hrest⟩ | hinfix
  · exact .inl ⟨name, d, rest, hsigned, by simp [← hrest]⟩
  · exact .inr ⟨name, d, hsigned, hinfix⟩

theorem HasSigned.of_append (hname : '&' ∉ name) (h : HasSigned (name ++ rest)) :
    HasSigned rest := by
  induction name with
  | nil => exact h
  | cons c name ih =>
    rw [List.mem_cons, not_or] at hname
    rcases h.of_cons with ⟨_, _, _, -, heq⟩ | h
    · exact absurd (List.cons.inj heq).1.symm hname.1
    · exact ih hname.2 h

theorem HasSigned.mono (h : HasSigned rest) (hrest : rest <:+ text) : HasSigned text :=
  h.imp fun _ ⟨c, hsigned, hinfix⟩ => ⟨c, hsigned, hinfix.trans hrest.isInfix⟩

theorem Numbered.not_isReference (h : Numbered ['+'] name c) : ¬ IsReference name c' := by
  have hplus : '+' ∈ name := by cases h <;> simp
  rintro (h' | h')
  · simp only [characterNames, List.mem_cons, Prod.mk.injEq, List.not_mem_nil, or_false] at h'
    rcases h' with ⟨rfl, -⟩ | ⟨rfl, -⟩ | ⟨rfl, -⟩ | ⟨rfl, -⟩ | ⟨rfl, -⟩ | ⟨rfl, -⟩ <;>
      exact absurd hplus (by decide)
  · cases h' with
    | decimal h' =>
      have := notMem_numeral (by decide) h' '+' (by simp)
      grind
    | hexadecimal hmark h' =>
      have := notMem_numeral (Nat.le_refl _) h' '+' (by simp)
      grind

theorem Numbered.not_starts (h : Numbered ['+'] name c) :
    ¬ Starts IsReference ('&' :: (name ++ ';' :: rest)) := by
  rintro ⟨name', d, after, heq, href⟩
  obtain ⟨rfl, -, -⟩ := IsReadReference.unique (.inr h) (.inl href) (List.cons.inj heq).2
  exact h.not_isReference href

/-- Without such signs, all that is read as a reference is one. -/
theorem Decodes.of_not_hasSigned (h : Decodes IsReadReference text decoded)
    (hnone : ¬ HasSigned text) : Decodes IsReference text decoded := by
  induction h with
  | nil => exact .nil
  | @reference name rest decoded c href _ ih =>
    have hrest : rest <:+ '&' :: (name ++ ';' :: rest) := ⟨'&' :: (name ++ [';']), by simp⟩
    refine .reference (href.resolve_right fun hsigned => hnone ?_)
      (ih fun h => hnone (h.mono hrest))
    exact ⟨name, c, hsigned, [], rest, by simp⟩
  | @kept c rest decoded hstarts _ ih =>
    refine .kept (fun ⟨name, d, after, heq, href⟩ => hstarts ⟨name, d, after, heq, .inl href⟩) ?_
    exact ih fun h => hnone (h.mono (List.suffix_cons c rest))

theorem Decodes.length_le (h : Decodes IsReadReference text decoded)
    (h' : Decodes IsReference text decoded') :
    decoded.length ≤ decoded'.length ∧ (HasSigned text → decoded.length < decoded'.length) := by
  induction h generalizing decoded' with
  | nil =>
    refine ⟨Nat.zero_le _, fun ⟨name, c, _, hinfix⟩ => ?_⟩
    exact absurd (List.infix_nil.1 hinfix) (List.cons_ne_nil _ _)
  | @reference name rest decoded c href _ ih =>
    have hname : '&' ∉ name ++ [';'] := by simp [href.notMem.2]
    have hsplit : name ++ ';' :: rest = name ++ [';'] ++ rest := by simp
    rcases href with href | hsigned
    · -- The reference is replaced both times.
      obtain ⟨behind, rfl, hbehind⟩ := h'.of_reference (fun _ _ => .inl) href
      obtain ⟨hle, hlt⟩ := ih hbehind
      refine ⟨Nat.succ_le_succ hle, fun hsigned => Nat.succ_lt_succ (hlt ?_)⟩
      rcases hsigned.of_cons with ⟨_, _, _, hsigned, heq⟩ | hsigned
      · obtain ⟨rfl, -, -⟩ :=
          IsReadReference.unique (.inl href) (.inr hsigned) (List.cons.inj heq).2
        exact absurd href hsigned.not_isReference
      · rw [hsplit] at hsigned
        exact hsigned.of_append hname
    · -- It is replaced by one character, or kept with all of its own.
      obtain ⟨kept, rfl, hkept⟩ := h'.of_kept hsigned.not_starts
      rw [hsplit] at hkept
      obtain ⟨behind, rfl, hbehind⟩ := hkept.of_append hname
      have hle := (ih hbehind).1
      simp only [List.length_cons, List.length_append]
      omega
  | @kept c rest decoded hnone _ ih =>
    have hkept : ¬ Starts IsReference (c :: rest) :=
      fun ⟨name, d, after, heq, href⟩ => hnone ⟨name, d, after, heq, .inl href⟩
    obtain ⟨behind, rfl, hbehind⟩ := h'.of_kept hkept
    obtain ⟨hle, hlt⟩ := ih hbehind
    refine ⟨Nat.succ_le_succ hle, fun hsigned => Nat.succ_lt_succ (hlt ?_)⟩
    refine hsigned.of_cons.resolve_left fun ⟨name, d, after, hsigned, heq⟩ => ?_
    exact hnone ⟨name, d, after, heq, .inr hsigned⟩

/-- There is one text that a text is decoded to. It is the one that is read exactly if nowhere digits
have a plus sign in front of them in what would be a reference otherwise. Reading takes such a sign
as if it were not there. -/
theorem unescape_decodes (text : List Char) :
    (∃! decoded, Decodes IsReference text decoded) ∧
      (Decodes IsReference text (unescape text) ↔ ¬ HasSigned text) ∧
      Decodes IsReadReference text (unescape text) := by
  have hread := decodes_unescape text
  refine ⟨?_, ⟨fun h hsigned => ?_, hread.of_not_hasSigned⟩, hread⟩
  · obtain ⟨decoded, h⟩ := exists_decodes IsReference text
    exact ⟨decoded, h, fun other h' => h'.unique (fun _ _ => .inl) h⟩
  · exact absurd ((hread.length_le h).2 hsigned) (Nat.lt_irrefl _)

example : unescape "&#65; &#+65; &#x+41;".toList = "A A A".toList := by decide +kernel

end Signed

end KeyedRender.Markup

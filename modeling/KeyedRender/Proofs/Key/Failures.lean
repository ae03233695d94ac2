import KeyedRender.Proofs.Key.Slices
import KeyedRender.Proofs.Text.Runs

/-!
# Failures of reading

Reading stops at the first place where no chunk begins. What is reported says which part of a chunk
is missing there, and where: at the offset behind all that was read, or behind the digits if the
character there is no tag.
-/
namespace KeyedRender.Key

/-- The chunks and the failure behind them, in the order in which they are answered. -/
def Decoded.items (d : Decoded) : List (Except DecodeError Chunk) :=
  d.chunks.map .ok ++ d.failure.toList.map .error

/-- The digits go up to the end or to the next character that is none. -/
structure MaximalDigits (digits rest : List Char) : Prop where
  ne_nil : digits ≠ []
  isDigit : ∀ c ∈ digits, c.isDigit = true
  maximal : ∀ c ∈ rest.head?, c.isDigit = false

/-- What is wrong with the beginning of a text at an offset. -/
inductive Diagnosed (offset : Nat) : List Char → DecodeError → Prop
  | missingLength {text : List Char} (start : ∀ c ∈ text.head?, c.isDigit = false) :
      Diagnosed offset text (.missingLength offset)
  | lengthOverflow {digits rest : List Char} (run : MaximalDigits digits rest)
      (large : 2 ^ 64 ≤ Decimal.digitsValue digits) :
      Diagnosed offset (digits ++ rest) (.lengthOverflow offset)
  | missingTag {digits : List Char} (run : MaximalDigits digits [])
      (fits : Decimal.digitsValue digits < 2 ^ 64) :
      Diagnosed offset digits (.missingTag offset)
  | unknownTag {digits rest : List Char} {c : Char} (run : MaximalDigits digits (c :: rest))
      (fits : Decimal.digitsValue digits < 2 ^ 64) (noTag : ∀ kind : FragmentKind, kind.tag ≠ c) :
      Diagnosed offset (digits ++ c :: rest) (.unknownTag c (offset + digits.length))
  | truncated {digits content : List Char} {kind : FragmentKind}
      (run : MaximalDigits digits (kind.tag :: content))
      (fits : Decimal.digitsValue digits < 2 ^ 64)
      (short : Text.units content < Decimal.digitsValue digits) :
      Diagnosed offset (digits ++ kind.tag :: content)
        (.truncated offset (Decimal.digitsValue digits) (Text.units content))
  | splitSurrogate {digits before after : List Char} {c : Char} {kind : FragmentKind}
      (run : MaximalDigits digits (kind.tag :: (before ++ c :: after)))
      (fits : Decimal.digitsValue digits < 2 ^ 64) (pair : Text.unitWidth c = 2)
      (inside : Decimal.digitsValue digits = Text.units before + 1) :
      Diagnosed offset (digits ++ kind.tag :: (before ++ c :: after)) (.splitSurrogate offset)

section Cuts

theorem cutUnits_short {length : Nat} {text : List Char} (h : Text.units text < length) :
    cutUnits length text = .short (Text.units text) := by
  induction text generalizing length with
  | nil => rw [cutUnits, if_neg (Nat.ne_zero_of_lt h)]; rfl
  | cons c rest ih =>
    rw [Text.units] at h
    rw [cutUnits, if_neg (Nat.ne_zero_of_lt h), if_pos (by omega), ih (by omega), Cut.push,
      Text.units, Nat.add_comm]

theorem cutUnits_split {before after : List Char} {c : Char} (h : Text.unitWidth c = 2) :
    cutUnits (Text.units before + 1) (before ++ c :: after) = .split := by
  induction before with
  | nil => simp [cutUnits, Text.units, h]
  | cons d before ih =>
    have hrest : Text.unitWidth d + Text.units before + 1 - Text.unitWidth d =
        Text.units before + 1 := by omega
    rw [Text.units, List.cons_append, cutUnits, if_neg (by omega), if_pos (by omega), hrest, ih,
      Cut.push]

theorem units_of_cutUnits_short {length found : Nat} {text : List Char}
    (h : cutUnits length text = .short found) :
    Text.units text < length ∧ found = Text.units text := by
  fun_induction cutUnits length text generalizing found with
  | case1 => cases h
  | case2 length hlength =>
    cases h
    exact ⟨Nat.pos_of_ne_zero hlength, rfl⟩
  | case3 => cases h
  | case4 length c rest _ hfits ih =>
    cases hcut : cutUnits (length - Text.unitWidth c) rest with
    | short more =>
      rw [hcut] at h
      cases h
      have hrest := ih hcut
      rw [Text.units]
      omega
    | whole taken after => rw [hcut] at h; cases h
    | split => rw [hcut] at h; cases h
  | case5 => cases h

theorem pair_of_cutUnits_split {length : Nat} {text : List Char}
    (h : cutUnits length text = .split) :
    ∃ before c after, text = before ++ c :: after ∧ Text.unitWidth c = 2 ∧
      length = Text.units before + 1 := by
  fun_induction cutUnits length text with
  | case1 => cases h
  | case2 => cases h
  | case3 => cases h
  | case4 length c rest _ hfits ih =>
    cases hcut : cutUnits (length - Text.unitWidth c) rest with
    | split =>
      obtain ⟨before, d, after, rfl, hpair, hlength⟩ := ih hcut
      refine ⟨c :: before, d, after, rfl, hpair, ?_⟩
      rw [Text.units]
      omega
    | whole taken after => rw [hcut] at h; cases h
    | short found => rw [hcut] at h; cases h
  | case5 length c rest hlength hfits =>
    have hwidth := Text.unitWidth_le_two c
    exact ⟨[], c, rest, rfl, by omega, by rw [Text.units]; omega⟩

end Cuts

section Diagnoses

variable {digits rest text : List Char} {offset : Nat} {e : DecodeError}

namespace MaximalDigits

theorem takeWhile_eq (h : MaximalDigits digits rest) :
    (digits ++ rest).takeWhile Char.isDigit = digits :=
  Text.takeWhile_run h.isDigit h.maximal

theorem dropWhile_eq (h : MaximalDigits digits rest) :
    (digits ++ rest).dropWhile Char.isDigit = rest :=
  Text.dropWhile_run h.isDigit h.maximal

theorem of_text (h : text.takeWhile Char.isDigit ≠ []) :
    MaximalDigits (text.takeWhile Char.isDigit) (text.dropWhile Char.isDigit) where
  ne_nil := h
  isDigit := fun _ hc => List.mem_takeWhile_imp hc
  maximal := Text.head?_dropWhile Char.isDigit text

end MaximalDigits

theorem FragmentKind.ofTag?_eq_none {c : Char} (h : ∀ kind : FragmentKind, kind.tag ≠ c) :
    FragmentKind.ofTag? c = none :=
  Option.eq_none_iff_forall_ne_some.2 fun kind heq => h kind (FragmentKind.tag_of_ofTag? heq)

theorem readChunk_run : MaximalDigits digits rest →
    Cursor.readChunk offset (digits ++ rest) =
      if 2 ^ 64 ≤ Decimal.digitsValue digits then .error (.lengthOverflow offset)
      else match rest with
        | [] => .error (.missingTag offset)
        | tag :: value =>
          match FragmentKind.ofTag? tag with
          | none => .error (.unknownTag tag (offset + digits.length))
          | some kind =>
            match cutUnits (Decimal.digitsValue digits) value with
            | .whole raw after => .ok (⟨kind, raw⟩, after)
            | .short found => .error (.truncated offset (Decimal.digitsValue digits) found)
            | .split => .error (.splitSurrogate offset) := by
  intro run
  have hsome : digits.isEmpty = false := by simp [run.ne_nil]
  simp only [Cursor.readChunk, run.takeWhile_eq, run.dropWhile_eq, hsome, Bool.false_eq_true,
    if_false]
  rfl

theorem readChunk_of_diagnosed (h : Diagnosed offset text e) :
    Cursor.readChunk offset text = .error e := by
  cases h with
  | missingLength start => simp [Cursor.readChunk, Text.takeWhile_eq_nil_iff.2 start]
  | lengthOverflow run large => rw [readChunk_run run, if_pos large]
  | missingTag run fits =>
    have hread := @readChunk_run _ _ offset run
    rwa [List.append_nil, if_neg (Nat.not_le.2 fits)] at hread
  | unknownTag run fits noTag =>
    rw [readChunk_run run, if_neg (Nat.not_le.2 fits)]
    simp only [FragmentKind.ofTag?_eq_none noTag]
  | truncated run fits short =>
    rw [readChunk_run run, if_neg (Nat.not_le.2 fits)]
    simp only [FragmentKind.ofTag?_tag, cutUnits_short short]
  | splitSurrogate run fits pair inside =>
    rw [readChunk_run run, if_neg (Nat.not_le.2 fits)]
    simp only [FragmentKind.ofTag?_tag, inside, cutUnits_split pair]

theorem diagnosed_of_readChunk (h : Cursor.readChunk offset text = .error e) :
    Diagnosed offset text e := by
  by_cases hnone : text.takeWhile Char.isDigit = []
  · simp only [Cursor.readChunk, hnone, List.isEmpty_nil, if_true] at h
    cases h
    exact .missingLength (Text.takeWhile_eq_nil_iff.1 hnone)
  obtain ⟨digits, rest, rfl, hrun⟩ : ∃ digits rest, text = digits ++ rest ∧
      MaximalDigits digits rest :=
    ⟨_, _, List.takeWhile_append_dropWhile.symm, MaximalDigits.of_text hnone⟩
  rw [readChunk_run hrun] at h
  split at h
  next hlarge =>
    cases h
    exact .lengthOverflow hrun hlarge
  next hfits =>
  rw [Nat.not_le] at hfits
  cases rest with
  | nil =>
    cases h
    rw [List.append_nil]
    exact .missingTag hrun hfits
  | cons tag value =>
    simp only at h
    split at h
    next hnotag =>
      cases h
      refine .unknownTag hrun hfits fun kind hkind => ?_
      rw [← hkind, FragmentKind.ofTag?_tag] at hnotag
      cases hnotag
    next kind hkind =>
    obtain rfl := FragmentKind.tag_of_ofTag? hkind
    split at h
    · cases h
    next found hcut =>
      cases h
      obtain ⟨hshort, rfl⟩ := units_of_cutUnits_short hcut
      exact .truncated hrun hfits hshort
    next hcut =>
      cases h
      obtain ⟨before, c, after, rfl, hpair, hinside⟩ := pair_of_cutUnits_split hcut
      exact .splitSurrogate hrun hfits hpair hinside

theorem readChunk_eq_error_iff :
    Cursor.readChunk offset text = .error e ↔ Diagnosed offset text e :=
  ⟨diagnosed_of_readChunk, readChunk_of_diagnosed⟩

end Diagnoses

section Items

variable {c later : Cursor} {item : Except DecodeError Chunk}

theorem items_of_end (h : c.next? = none) : c.collect.items = [] := by
  rw [Cursor.collect]
  split
  · rfl
  next hnext => rw [h] at hnext; cases hnext
  next hnext => rw [h] at hnext; cases hnext

theorem items_of_next (h : c.next? = some (item, later)) :
    c.collect.items = item :: later.collect.items := by
  rw [Cursor.collect]
  split
  next hnext => rw [h] at hnext; cases hnext
  next e after hnext =>
    have hfinish := Cursor.finish_of_next? hnext
    rw [h] at hnext
    cases hnext
    rw [hfinish, items_of_end c.next?_finish]
    rfl
  next found after hnext =>
    rw [h] at hnext
    cases hnext
    rfl

/-- The calls answer the items in order, and none from the end on. -/
theorem answers_eq (c : Cursor) (n : Nat) :
    c.answers n = (List.range n).map (c.collect.items[·]?) := by
  induction n generalizing c with
  | zero => rfl
  | succ n ih =>
    rw [Cursor.answers, List.range_succ_eq_map, List.map_cons, List.map_map]
    cases hnext : c.next? with
    | none => simp [ih, items_of_end hnext, Function.comp_def]
    | some answer => simp [ih, items_of_next hnext, Function.comp_def]

theorem chunks_of_next {found : Chunk} (h : c.next? = some (.ok found, later)) :
    c.collect.chunks = found :: later.collect.chunks := by
  rw [Cursor.collect]
  split
  next hnext => rw [h] at hnext; cases hnext
  next hnext => rw [h] at hnext; cases hnext
  next hnext =>
    rw [h] at hnext
    cases hnext
    rfl

theorem chunks_of_error {e : DecodeError} (h : c.next? = some (.error e, later)) :
    c.collect.chunks = [] := by
  rw [Cursor.collect]
  split
  · rfl
  · rfl
  next hnext => rw [h] at hnext; cases hnext

theorem item_behind (c : Cursor) {n : Nat} (h : n ≤ c.collect.chunks.length) :
    ∃ (spellings : List Spelling) (rest : List Char), (∀ s ∈ spellings, s.Valid) ∧
      spellings.map Spelling.chunk = c.collect.chunks.take n ∧
      c.rest = spellings.flatMap Spelling.text ++ rest ∧
      c.collect.items[n]? =
        (Cursor.mk (c.offset + Text.bytes (spellings.flatMap Spelling.text)) rest).next?.map
          Prod.fst := by
  induction n generalizing c with
  | zero =>
    refine ⟨[], c.rest, by simp, by simp, by simp, ?_⟩
    have hplace : Cursor.mk (c.offset + Text.bytes []) c.rest = c := rfl
    rw [List.flatMap_nil, hplace]
    cases hnext : c.next? with
    | none => simp [items_of_end hnext]
    | some answer => simp [items_of_next hnext]
  | succ n ih =>
    cases hnext : c.next? with
    | none =>
      have hnone := items_of_end hnext
      simp only [Decoded.items, List.append_eq_nil_iff, List.map_eq_nil_iff] at hnone
      simp [hnone.1] at h
    | some answer =>
      obtain ⟨item, later⟩ := answer
      cases item with
      | error e => simp [chunks_of_error hnext] at h
      | ok found =>
        obtain ⟨s, hs, hchunk, htext, hoffset⟩ := Cursor.spelling_of_next? hnext
        have hchunks := chunks_of_next hnext
        obtain ⟨spellings, rest, hvalid, htaken, hrest, hitem⟩ :=
          ih later (by simpa [hchunks] using h)
        refine ⟨s :: spellings, rest, ?valid, ?taken, ?rest, ?item⟩
        case valid => exact List.forall_mem_cons.2 ⟨hs, hvalid⟩
        case taken => rw [List.map_cons, htaken, hchunk, hchunks, List.take_succ_cons]
        case rest => rw [htext, hrest, List.flatMap_cons, List.append_assoc]
        case item =>
          rw [items_of_next hnext, List.getElem?_cons_succ, hitem, hoffset, List.flatMap_cons,
            Text.bytes_append, Nat.add_assoc]

theorem next?_fst (offset : Nat) (rest : List Char) :
    (Cursor.mk offset rest).next?.map Prod.fst =
      if rest = [] then none else some ((Cursor.readChunk offset rest).map Prod.fst) := by
  by_cases hempty : rest = []
  · simp [Cursor.next?, hempty]
  · have hne : rest.isEmpty = false := by simpa using hempty
    simp only [Cursor.next?, hne, Bool.false_eq_true, if_false, if_neg hempty]
    cases Cursor.readChunk offset rest <;> rfl

end Items

/-- Reading is complete, and its failure exact. The calls answer the items of the reading, a finite
list in which nothing is behind a failure, and none from then on; no cut at a byte offset on the way
is inside of a character or outside of the text. Behind the spellings of any first chunks, the next
item is none at the end of the text, else the failure that is diagnosed for the rest at the length
of these spellings in bytes, and a chunk if nothing is wrong there. -/
theorem decode_failures (encoded : String) :
    (∀ n, (Cursor.start encoded).answers n =
        (List.range n).map ((decode encoded).items[·]?) ∧
      sliceAnswers? encoded.toList n 0 = some ((Cursor.start encoded).answers n)) ∧
    ∀ n ≤ (decode encoded).chunks.length, ∃ (spellings : List Spelling) (rest : List Char),
      (∀ s ∈ spellings, s.Valid) ∧
      spellings.map Spelling.chunk = (decode encoded).chunks.take n ∧
      encoded.toList = spellings.flatMap Spelling.text ++ rest ∧
      ((decode encoded).items[n]? = none ↔ rest = []) ∧
      (∀ e, (decode encoded).items[n]? = some (.error e) ↔
        rest ≠ [] ∧ Diagnosed (Text.bytes (spellings.flatMap Spelling.text)) rest e) ∧
      ((∃ found, (decode encoded).items[n]? = some (.ok found)) ↔
        rest ≠ [] ∧ ∀ e, ¬ Diagnosed (Text.bytes (spellings.flatMap Spelling.text)) rest e) := by
  have hinside : (Cursor.start encoded).Inside encoded.toList := ⟨[], rfl, rfl⟩
  refine ⟨fun n => ⟨answers_eq _ n, sliceAnswers?_eq hinside n⟩, fun n hn => ?_⟩
  obtain ⟨spellings, rest, hvalid, htaken, hrest, hitem⟩ := item_behind (Cursor.start encoded) hn
  refine ⟨spellings, rest, hvalid, htaken, hrest, ?_⟩
  have hoffset : (Cursor.start encoded).offset = 0 := rfl
  rw [hoffset, Nat.zero_add, next?_fst] at hitem
  change (decode encoded).items[n]? = _ at hitem
  simp only [hitem, ← readChunk_eq_error_iff]
  by_cases hempty : rest = []
  · simp [hempty]
  · simp only [if_neg hempty]
    cases Cursor.readChunk (Text.bytes (spellings.flatMap Spelling.text)) rest with
    | error e => simp [Except.map, hempty]
    | ok found => simp [Except.map, hempty]

/-- The offset is counted in bytes, of which the chunk in front has eight, the lengths in units. -/
theorem decode_failures_short :
    (decode "3:é𝄞7#x").items = [.ok ⟨.text, "é𝄞".toList⟩, .error (.truncated 8 7 1)] ∧
      ∃ (spellings : List Spelling) (rest : List Char),
        spellings.map Spelling.chunk = [⟨.text, "é𝄞".toList⟩] ∧
        "3:é𝄞7#x".toList = spellings.flatMap Spelling.text ++ rest ∧
        Diagnosed (Text.bytes (spellings.flatMap Spelling.text)) rest (.truncated 8 7 1) := by
  have hread : decode "3:é𝄞7#x" = ⟨[⟨.text, "é𝄞".toList⟩], some (.truncated 8 7 1)⟩ := by
    decide +kernel
  obtain ⟨spellings, rest, -, htaken, htext, -, herror, -⟩ :=
    (decode_failures "3:é𝄞7#x").2 1 (by rw [hread]; decide)
  rw [hread] at htaken herror
  exact ⟨by rw [hread]; rfl, spellings, rest, htaken, htext, ((herror _).1 rfl).2⟩

end KeyedRender.Key

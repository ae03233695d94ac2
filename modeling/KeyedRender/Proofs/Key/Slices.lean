import KeyedRender.Proofs.Key.Grammar

/-!
# Reading at byte offsets

The reader cuts the encoded key at byte offsets, which is possible only where a character begins or
the text ends. It is followed here with every cut checked. No cut fails, whatever the text is, and
what it reads is what the cursor reads.
-/
namespace KeyedRender.Key

/-- What is in front of a byte offset and behind it; none inside of a character or past the end. -/
def splitAtByte? : Nat → List Char → Option (List Char × List Char)
  | 0, text => some ([], text)
  | _ + 1, [] => none
  | n + 1, c :: rest =>
    if c.utf8Size ≤ n + 1 then
      (splitAtByte? (n + 1 - c.utf8Size) rest).map fun parts => (c :: parts.1, parts.2)
    else none

/-- Units and bytes up to the character at which the count of units is the length. The count jumps
over the length if a character of two units is in the way, and then goes on to the end. -/
def measure (length units bytes : Nat) : List Char → Nat × Nat
  | [] => (units, bytes)
  | c :: rest =>
    if units = length then (units, bytes)
    else measure length (units + Text.unitWidth c) (bytes + c.utf8Size) rest

def failAt (encoded : List Char) (e : DecodeError) : Option (Except DecodeError Chunk × Nat) :=
  some (.error e, Text.bytes encoded)

/-- The content of a chunk, behind a number of bytes with its length and its tag. -/
def sliceContent? (encoded : List Char) (start head length : Nat) (kind : FragmentKind)
    (rest : List Char) : Option (Option (Except DecodeError Chunk × Nat)) := do
  let (_, value) ← splitAtByte? head rest
  let (units, stop) := measure length 0 0 value
  if length < units then pure (failAt encoded (.splitSurrogate start))
  else if units < length then pure (failAt encoded (.truncated start length units))
  else do
    let (raw, _) ← splitAtByte? stop value
    pure (some (.ok ⟨kind, raw⟩, start + head + stop))

/-- The next chunk or failure at a byte offset, with the offset behind it; none outside if one of
the cuts fails. -/
def sliceNext? (encoded : List Char) (start : Nat) :
    Option (Option (Except DecodeError Chunk × Nat)) := do
  let (_, rest) ← splitAtByte? start encoded
  if rest.isEmpty then pure none
  else
    let count := (rest.takeWhile Char.isDigit).length
    if count = 0 then pure (failAt encoded (.missingLength start))
    else do
      let (digits, behind) ← splitAtByte? count rest
      let length := Decimal.digitsValue digits
      if Text.words64 ≤ length then pure (failAt encoded (.lengthOverflow start))
      else
        match behind with
        | [] => pure (failAt encoded (.missingTag start))
        | tag :: _ =>
          match FragmentKind.ofTag? tag with
          | none => pure (failAt encoded (.unknownTag tag (start + count)))
          | some kind => sliceContent? encoded start (count + 1) length kind rest

/-- The answers to as many calls as asked for, one after the other. -/
def sliceAnswers? (encoded : List Char) :
    Nat → Nat → Option (List (Option (Except DecodeError Chunk)))
  | 0, _ => some []
  | n + 1, start => do
    match ← sliceNext? encoded start with
    | none => (sliceAnswers? encoded n start).map (none :: ·)
    | some (item, later) => (sliceAnswers? encoded n later).map (some item :: ·)

def Cursor.answers : Nat → Cursor → List (Option (Except DecodeError Chunk))
  | 0, _ => []
  | n + 1, c =>
    match c.next? with
    | none => none :: c.answers n
    | some (item, later) => some item :: later.answers n

section Cuts

theorem splitAtByte?_append (before after : List Char) :
    splitAtByte? (Text.bytes before) (before ++ after) = some (before, after) := by
  induction before with
  | nil => simp [Text.bytes, splitAtByte?]
  | cons c before ih =>
    obtain ⟨n, hn⟩ := Nat.exists_eq_add_one_of_ne_zero
      (Nat.ne_of_gt (Nat.add_pos_left c.utf8Size_pos (Text.bytes before)))
    have hrest : n + 1 - c.utf8Size = Text.bytes before := by omega
    rw [Text.bytes, hn, List.cons_append, splitAtByte?, if_pos (by omega), hrest, ih]
    rfl

theorem utf8Size_of_isDigit {c : Char} (h : c.isDigit = true) : c.utf8Size = 1 := by
  have hrange := Char.isDigit_iff_toNat.1 h
  have hnine : '9'.toNat = 57 := rfl
  have hle : c.val ≤ 0x7f := by
    rw [UInt32.le_iff_toNat_le]
    have hval : c.val.toNat = c.toNat := rfl
    have hbound : (0x7f : UInt32).toNat = 127 := rfl
    omega
  simp [Char.utf8Size, hle]

theorem bytes_of_isDigit {digits : List Char} (h : ∀ c ∈ digits, c.isDigit = true) :
    Text.bytes digits = digits.length := by
  induction digits with
  | nil => rfl
  | cons c digits ih =>
    rw [Text.bytes, utf8Size_of_isDigit (h c List.mem_cons_self),
      ih fun d hd => h d (List.mem_cons_of_mem c hd), List.length_cons, Nat.add_comm]

theorem utf8Size_tag (kind : FragmentKind) : kind.tag.utf8Size = 1 := by
  cases kind <;> decide

end Cuts

section Measure

variable {length units bytes : Nat}

theorem lt_measure (h : length < units) (text : List Char) :
    length < (measure length units bytes text).1 := by
  induction text generalizing units bytes with
  | nil => exact h
  | cons c rest ih =>
    rw [measure, if_neg (Nat.ne_of_gt h)]
    exact ih (Nat.lt_add_right _ h)

/-- The count tells how the text can be cut. -/
theorem measure_cutUnits (h : units ≤ length) (text : List Char) :
    match cutUnits (length - units) text with
    | .whole raw _ => measure length units bytes text = (length, bytes + Text.bytes raw)
    | .short found => (measure length units bytes text).1 = units + found ∧ units + found < length
    | .split => length < (measure length units bytes text).1 := by
  induction text generalizing units bytes with
  | nil =>
    by_cases hend : length - units = 0
    · have heq : units = length := by omega
      simp [cutUnits, measure, heq, Text.bytes]
    · simp only [cutUnits, if_neg hend, measure]
      omega
  | cons c rest ih =>
    by_cases hend : length - units = 0
    · have heq : units = length := by omega
      simp [cutUnits, measure, heq, Text.bytes]
    have hne : units ≠ length := by omega
    by_cases hfits : Text.unitWidth c ≤ length - units
    · have hrest := @ih (units + Text.unitWidth c) (bytes + c.utf8Size) (by omega)
      have hsub : length - (units + Text.unitWidth c) = length - units - Text.unitWidth c := by
        omega
      rw [hsub] at hrest
      rw [cutUnits, if_neg hend, if_pos hfits, measure, if_neg hne]
      cases hcut : cutUnits (length - units - Text.unitWidth c) rest with
      | whole raw after =>
        rw [hcut] at hrest
        simpa [Cut.push, Text.bytes, Nat.add_assoc] using hrest
      | short found =>
        rw [hcut] at hrest
        simp only [Cut.push]
        omega
      | split =>
        rw [hcut] at hrest
        exact hrest
    · rw [cutUnits, if_neg hend, if_neg hfits, measure, if_neg hne]
      exact lt_measure (by omega) rest

end Measure

theorem sliceContent?_eq (encoded head value : List Char) (start length : Nat)
    (kind : FragmentKind) :
    sliceContent? encoded start (Text.bytes head) length kind (head ++ value) =
      some (match cutUnits length value with
        | .whole raw _ => some (.ok ⟨kind, raw⟩, start + Text.bytes head + Text.bytes raw)
        | .short found => failAt encoded (.truncated start length found)
        | .split => failAt encoded (.splitSurrogate start)) := by
  have hmeasure := @measure_cutUnits length 0 0 (Nat.zero_le length) value
  simp only [sliceContent?, splitAtByte?_append, Option.bind_eq_bind, Option.bind_some]
  rw [Nat.sub_zero] at hmeasure
  cases hcut : cutUnits length value with
  | whole raw after =>
    simp only [hcut, Nat.zero_add] at hmeasure
    have hraw : splitAtByte? (Text.bytes raw) value = some (raw, after) := by
      rw [cutUnits_append hcut, splitAtByte?_append]
    simp [hmeasure, hraw]
  | short found =>
    simp only [hcut, Nat.zero_add] at hmeasure
    simp [hmeasure.1, hmeasure.2, Nat.lt_asymm hmeasure.2]
  | split =>
    simp only [hcut] at hmeasure
    simp [hmeasure]

theorem sliceContent?_chunk (encoded value : List Char) (start length : Nat) (kind : FragmentKind)
    {digits : List Char} (h : ∀ c ∈ digits, c.isDigit = true) :
    sliceContent? encoded start (digits.length + 1) length kind (digits ++ kind.tag :: value) =
      some (match cutUnits length value with
        | .whole raw after => some (.ok ⟨kind, raw⟩,
            ((Cursor.mk start (digits ++ kind.tag :: value)).advance after).offset)
        | .short found => failAt encoded (.truncated start length found)
        | .split => failAt encoded (.splitSurrogate start)) := by
  have hhead : (digits ++ [kind.tag]) ++ value = digits ++ kind.tag :: value := by simp
  have hsize : Text.bytes (digits ++ [kind.tag]) = digits.length + 1 := by
    rw [Text.bytes_append, bytes_of_isDigit h]
    simp [Text.bytes, utf8Size_tag]
  have hcontent := sliceContent?_eq encoded (digits ++ [kind.tag]) value start length kind
  rw [hhead, hsize] at hcontent
  rw [hcontent]
  cases hunits : cutUnits length value with
  | whole raw after =>
    have hafter := congrArg Text.bytes hhead
    rw [cutUnits_append hunits, Text.bytes_append, hsize, Text.bytes_append] at hafter
    simp only [Cursor.advance, cutUnits_append hunits, Option.some.injEq, Prod.mk.injEq, true_and]
    omega
  | short found => rfl
  | split => rfl

theorem sliceNext?_eq (before rest : List Char) :
    sliceNext? (before ++ rest) (Text.bytes before) =
      some ((Cursor.mk (Text.bytes before) rest).next?.map fun answer =>
        (answer.1, answer.2.offset)) := by
  -- The digits are of one byte each, so that the cut behind them is at their number.
  have hsplit := List.takeWhile_append_dropWhile (p := Char.isDigit) (l := rest)
  have hdigits : ∀ c ∈ rest.takeWhile Char.isDigit, c.isDigit = true :=
    fun c hc => List.mem_takeWhile_imp hc
  have hcut := splitAtByte?_append (rest.takeWhile Char.isDigit) (rest.dropWhile Char.isDigit)
  rw [hsplit, bytes_of_isDigit hdigits] at hcut
  have hend : Text.bytes (before ++ rest) = Text.bytes before + Text.bytes rest := by simp
  simp only [sliceNext?, splitAtByte?_append, Option.bind_eq_bind, Option.bind_some, hcut,
    Cursor.next?, Cursor.readChunk, List.length_eq_zero_iff, List.isEmpty_iff]
  by_cases hempty : rest = []
  · simp [hempty]
  by_cases hnone : rest.takeWhile Char.isDigit = []
  · simp only [hempty, hnone, failAt, hend, if_true, if_false]
    rfl
  by_cases hlarge : Text.words64 ≤ Decimal.digitsValue (rest.takeWhile Char.isDigit)
  · simp only [hempty, hnone, hlarge, failAt, hend, if_true, if_false]
    rfl
  simp only [hempty, hnone, hlarge, if_false]
  cases hbehind : rest.dropWhile Char.isDigit with
  | nil =>
    simp only [failAt, hend]
    rfl
  | cons tag value =>
    cases htag : FragmentKind.ofTag? tag with
    | none =>
      simp only [failAt, hend, htag]
      rfl
    | some kind =>
      have hcontent := sliceContent?_chunk (before ++ rest) value (Text.bytes before)
        (Decimal.digitsValue (rest.takeWhile Char.isDigit)) kind hdigits
      rw [FragmentKind.tag_of_ofTag? htag, ← hbehind, hsplit] at hcontent
      simp only [htag, hcontent]
      cases cutUnits (Decimal.digitsValue (rest.takeWhile Char.isDigit)) value with
      | whole raw after => rfl
      | short found =>
        simp only [failAt, hend]
        rfl
      | split =>
        simp only [failAt, hend]
        rfl

def Cursor.Inside (encoded : List Char) (c : Cursor) : Prop :=
  ∃ before, encoded = before ++ c.rest ∧ c.offset = Text.bytes before

theorem Cursor.spelling_of_next? {c later : Cursor} {found : Chunk}
    (h : c.next? = some (.ok found, later)) :
    ∃ s : Spelling, s.Valid ∧ s.chunk = found ∧ c.rest = s.text ++ later.rest ∧
      later.offset = c.offset + Text.bytes s.text := by
  unfold next? at h
  split at h
  · cases h
  split at h
  · cases h
  next rest hread =>
    cases h
    obtain ⟨s, hs, hchunk, htext⟩ := spelling_of_readChunk hread
    exact ⟨s, hs, hchunk, htext, by simp [advance, htext]⟩

theorem Cursor.finish_of_next? {c later : Cursor} {e : DecodeError}
    (h : c.next? = some (.error e, later)) : later = c.finish := by
  unfold next? at h
  split at h
  · cases h
  split at h <;> cases h
  rfl

theorem Cursor.Inside.next {encoded : List Char} {c later : Cursor}
    {item : Except DecodeError Chunk} (h : c.Inside encoded)
    (hnext : c.next? = some (item, later)) : later.Inside encoded := by
  obtain ⟨before, hencoded, hoffset⟩ := h
  cases item with
  | error e =>
    rw [finish_of_next? hnext]
    exact ⟨encoded, by simp [finish], by simp [finish, hencoded, hoffset]⟩
  | ok found =>
    obtain ⟨s, -, -, htext, hlater⟩ := spelling_of_next? hnext
    exact ⟨before ++ s.text, by simp [hencoded, htext], by simp [hlater, hoffset]⟩

/-- Read by slices, the calls give the answers of the cursor, and no slice fails. -/
theorem sliceAnswers?_eq {encoded : List Char} {c : Cursor} (h : c.Inside encoded) (n : Nat) :
    sliceAnswers? encoded n c.offset = some (c.answers n) := by
  induction n generalizing c with
  | zero => rfl
  | succ n ih =>
    obtain ⟨before, hencoded, hoffset⟩ := h
    have hslice : sliceNext? encoded c.offset =
        some (c.next?.map fun answer => (answer.1, answer.2.offset)) := by
      rw [hencoded, hoffset, sliceNext?_eq, ← hoffset]
    rw [sliceAnswers?, hslice, Cursor.answers]
    cases hnext : c.next? with
    | none => simp [ih ⟨before, hencoded, hoffset⟩]
    | some answer =>
      obtain ⟨item, later⟩ := answer
      have hlater := Cursor.Inside.next ⟨before, hencoded, hoffset⟩ hnext
      simp [ih hlater]

end KeyedRender.Key

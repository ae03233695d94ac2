import KeyedRender.Key.Fragment
import KeyedRender.Text.Quoted

/-!
# Reading encoded keys

A cursor stands at a byte offset in an encoded key and reads one chunk at a time. The first
failure moves it to the end, so at most one is reported and nothing follows it.
-/
namespace KeyedRender.Key

inductive DecodeError
  | missingLength (offset : Nat)
  | lengthOverflow (offset : Nat)
  | unknownTag (tag : Char) (offset : Nat)
  | missingTag (offset : Nat)
  | truncated (offset expected found : Nat)
  | splitSurrogate (offset : Nat)
deriving DecidableEq

def DecodeError.message : DecodeError → String
  | missingLength offset => s!"Expected a length prefix at offset {offset}"
  | lengthOverflow offset => s!"Length prefix at offset {offset} is too large"
  | unknownTag tag offset =>
    "Unknown key fragment tag " ++ String.ofList (Text.quoted '\'' [tag]) ++
      s!" at offset {offset}"
  | missingTag offset => s!"Key fragment at offset {offset} is missing its tag"
  | truncated offset expected found =>
    s!"Key fragment at offset {offset} declares {expected} UTF-16 units but only {found} remain"
  | splitSurrogate offset => s!"Key fragment at offset {offset} ends inside a surrogate pair"

structure Chunk where
  kind : FragmentKind
  raw : List Char
deriving DecidableEq

def Chunk.fragment (c : Chunk) : Fragment :=
  match c.kind with
  | .absent => .absent
  | .number => .number (readNumber c.raw)
  | .text => .text (String.ofList c.raw)

inductive Cut
  | whole (taken rest : List Char)
  | short (found : Nat)
  | split
deriving DecidableEq

namespace Cut

def push (c : Char) : Cut → Cut
  | whole taken rest => whole (c :: taken) rest
  | short found => short (found + Text.unitWidth c)
  | split => split

end Cut

def cutUnits (length : Nat) (text : List Char) : Cut :=
  match text with
  | [] => if length = 0 then .whole [] [] else .short 0
  | c :: rest =>
    if length = 0 then .whole [] (c :: rest)
    else if Text.unitWidth c ≤ length then (cutUnits (length - Text.unitWidth c) rest).push c
    else .split

theorem cutUnits_append {length : Nat} {text taken rest : List Char}
    (h : cutUnits length text = .whole taken rest) : text = taken ++ rest := by
  fun_induction cutUnits length text generalizing taken with
  | case1 => cases h; rfl
  | case2 => cases h
  | case3 => cases h; rfl
  | case4 length c tail _ _ ih =>
    cases hcut : cutUnits (length - Text.unitWidth c) tail with
    | whole first last =>
      rw [hcut] at h
      simp only [Cut.push, Cut.whole.injEq] at h
      obtain ⟨rfl, rfl⟩ := h
      simp [ih hcut]
    | short found => rw [hcut] at h; cases h
    | split => rw [hcut] at h; cases h
  | case5 => cases h

structure Cursor where
  offset : Nat
  rest : List Char
deriving DecidableEq

namespace Cursor

def start (encoded : String) : Cursor := ⟨0, encoded.toList⟩

def finish (c : Cursor) : Cursor := ⟨c.offset + Text.bytes c.rest, []⟩

/-- The chunk at the front of a text that is not empty, and what follows it. -/
def readChunk (offset : Nat) (text : List Char) : Except DecodeError (Chunk × List Char) :=
  let digits := text.takeWhile Char.isDigit
  let length := Decimal.digitsValue digits
  if digits.isEmpty then .error (.missingLength offset)
  else if Text.words64 ≤ length then .error (.lengthOverflow offset)
  else match text.dropWhile Char.isDigit with
    | [] => .error (.missingTag offset)
    | tag :: rest =>
      match FragmentKind.ofTag? tag with
      | none => .error (.unknownTag tag (offset + digits.length))
      | some kind =>
        match cutUnits length rest with
        | .whole raw after => .ok (⟨kind, raw⟩, after)
        | .short found => .error (.truncated offset length found)
        | .split => .error (.splitSurrogate offset)

theorem readChunk_length_lt {offset : Nat} {text rest : List Char} {c : Chunk}
    (h : readChunk offset text = .ok (c, rest)) : rest.length < text.length := by
  simp only [readChunk] at h
  split at h
  · cases h
  split at h
  · cases h
  split at h
  · cases h
  next tag tail htail =>
    split at h
    · cases h
    split at h
    next raw after hcut =>
      cases h
      have hsplit := List.takeWhile_append_dropWhile (p := Char.isDigit) (l := text)
      have hlen := congrArg List.length hsplit
      rw [htail, cutUnits_append hcut] at hlen
      simp only [List.length_append, List.length_cons] at hlen
      omega
    · cases h
    · cases h

def advance (c : Cursor) (rest : List Char) : Cursor :=
  ⟨c.offset + (Text.bytes c.rest - Text.bytes rest), rest⟩

/-- The next chunk or failure, and the cursor behind it; none at the end. -/
def next? (c : Cursor) : Option (Except DecodeError Chunk × Cursor) :=
  if c.rest.isEmpty then none
  else match readChunk c.offset c.rest with
    | .error e => some (.error e, c.finish)
    | .ok (found, rest) => some (.ok found, c.advance rest)

@[simp] theorem next?_finish (c : Cursor) : c.finish.next? = none := rfl

theorem next?_length_lt {c later : Cursor} {found : Chunk}
    (h : c.next? = some (.ok found, later)) : later.rest.length < c.rest.length := by
  unfold next? at h
  split at h
  · cases h
  split at h
  · cases h
  next hread =>
    cases h
    exact readChunk_length_lt hread

end Cursor

/-- The chunks of an encoded key up to its end or to the first failure. -/
structure Decoded where
  chunks : List Chunk
  failure : Option DecodeError
deriving DecidableEq

def Cursor.collect (c : Cursor) : Decoded :=
  match _h : c.next? with
  | none => ⟨[], none⟩
  | some (.error e, _) => ⟨[], some e⟩
  | some (.ok found, later) =>
    let rest := later.collect
    ⟨found :: rest.chunks, rest.failure⟩
termination_by c.rest.length
decreasing_by exact Cursor.next?_length_lt _h

def decode (encoded : String) : Decoded := (Cursor.start encoded).collect

end KeyedRender.Key

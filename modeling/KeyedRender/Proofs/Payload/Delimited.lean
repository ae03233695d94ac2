import KeyedRender.Proofs.Payload.Numbers
import KeyedRender.Proofs.Text.Runs

/-!
# Indented payload text tells payloads apart

Only the text of a number does not show by itself where it ends: everything else closes what it
opened. What follows a payload in a text is a line break, a comma or nothing, so that a payload and
what follows it are both found again, at any depth.
-/
namespace KeyedRender.Json

open Key (isNumberChar)

def Ends (rest : List Char) : Prop := ∀ c ∈ rest.head?, isNumberChar c = false

/-- In front of texts that end a number, the text of `x` is that of nothing else. -/
def Delimits {α : Type} (write : α → List Char) (x : α) : Prop :=
  ∀ ⦃y rest rest'⦄, Ends rest → Ends rest' → write x ++ rest = write y ++ rest' →
    x = y ∧ rest = rest'

theorem ends_cons {c : Char} {rest : List Char} (h : isNumberChar c = false) :
    Ends (c :: rest) := by
  intro d hd
  cases hd
  exact h

theorem ends_newline (level : Nat) (rest : List Char) : Ends (newline level ++ rest) :=
  ends_cons (by decide)

theorem Ends.number_inj {text text' rest rest' : List Char} (hrest : Ends rest)
    (hrest' : Ends rest') (htext : ∀ c ∈ text, isNumberChar c = true)
    (htext' : ∀ c ∈ text', isNumberChar c = true) (h : text ++ rest = text' ++ rest') :
    text = text' ∧ rest = rest' := by
  have hrun := congrArg (List.takeWhile isNumberChar) h
  have hleft := congrArg (List.dropWhile isNumberChar) h
  rw [Text.takeWhile_run htext hrest, Text.takeWhile_run htext' hrest'] at hrun
  rw [Text.dropWhile_run htext hrest, Text.dropWhile_run htext' hrest'] at hleft
  exact ⟨hrun, hleft⟩

section Quoting

def unescapeChar? : List Char → Option (Char × List Char)
  | '\\' :: 'u' :: '0' :: '0' :: high :: low :: rest => do
    some (Char.ofNat ((← Text.digitValue? 16 high) * 16 + (← Text.digitValue? 16 low)), rest)
  | '\\' :: 'b' :: rest => some ('\x08', rest)
  | '\\' :: 'f' :: rest => some ('\x0c', rest)
  | '\\' :: 'n' :: rest => some ('\n', rest)
  | '\\' :: 'r' :: rest => some ('\r', rest)
  | '\\' :: 't' :: rest => some ('\t', rest)
  | '\\' :: c :: rest => some (c, rest)
  | c :: rest => some (c, rest)
  | [] => none

theorem controlText_readBack : ∀ n < 0x20,
    Text.digitValue? 16 (Nat.digitChar (n / 16)) = some (n / 16) ∧
      Text.digitValue? 16 (Nat.digitChar (n % 16)) = some (n % 16) := by
  decide

theorem unescapeChar?_escapeChar (c : Char) (rest : List Char) :
    unescapeChar? (escapeChar c ++ rest) = some (c, rest) := by
  unfold escapeChar
  split_ifs with hquote hback hb hf hn hr ht hcontrol
  all_goals try (subst c; rfl)
  · obtain ⟨hhigh, hlow⟩ := controlText_readBack c.toNat hcontrol
    have hnumber : c.toNat / 16 * 16 + c.toNat % 16 = c.toNat := Nat.div_add_mod' ..
    simp [unescapeChar?, hhigh, hlow, hnumber]
  · simp [unescapeChar?, hback]

theorem escapeChar_ne_quote (c : Char) (rest tail : List Char) :
    escapeChar c ++ rest ≠ '"' :: tail := by
  unfold escapeChar
  split_ifs with hquote <;> simp [hquote]

theorem escaped_inj : ∀ {s t rest rest' : List Char},
    s.flatMap escapeChar ++ '"' :: rest = t.flatMap escapeChar ++ '"' :: rest' →
      s = t ∧ rest = rest' := by
  intro s
  induction s with
  | nil =>
    intro t rest rest' h
    cases t with
    | nil => simpa using h
    | cons d t =>
      simp only [List.flatMap_cons, List.append_assoc] at h
      exact absurd h.symm (escapeChar_ne_quote d _ _)
  | cons c s ih =>
    intro t rest rest' h
    cases t with
    | nil =>
      simp only [List.flatMap_cons, List.append_assoc] at h
      exact absurd h (escapeChar_ne_quote c _ _)
    | cons d t =>
      simp only [List.flatMap_cons, List.append_assoc] at h
      have hread := congrArg unescapeChar? h
      rw [unescapeChar?_escapeChar, unescapeChar?_escapeChar] at hread
      obtain ⟨rfl, htail⟩ := Prod.mk.inj (Option.some.inj hread)
      obtain ⟨rfl, rfl⟩ := ih htail
      exact ⟨rfl, rfl⟩

theorem quotedText_inj {s t : String} {rest rest' : List Char}
    (h : quotedText s ++ rest = quotedText t ++ rest') : s = t ∧ rest = rest' := by
  simp only [quotedText, List.cons_append, List.append_assoc, List.nil_append] at h
  obtain ⟨htext, hrest⟩ := escaped_inj (List.cons.inj h).2
  exact ⟨String.toList_injective htext, hrest⟩

end Quoting

section Lines

variable {α : Type} {write : α → List Char} {level outer : Nat} {close : Char}

def lines (level : Nat) (write : α → List Char) : List α → List Char
  | [] => []
  | [x] => newline level ++ write x
  | x :: next :: rest => newline level ++ write x ++ ',' :: lines level write (next :: rest)

theorem lines_inj {xs ys : List α} {rest rest' : List Char}
    (hwrite : ∀ x ∈ xs, Delimits write x) (hxs : xs ≠ []) (hys : ys ≠ [])
    (h : lines level write xs ++ (newline outer ++ rest) =
      lines level write ys ++ (newline outer ++ rest')) :
    xs = ys ∧ rest = rest' := by
  induction xs generalizing ys with
  | nil => exact absurd rfl hxs
  | cons x xs ih =>
    obtain ⟨y, ys, rfl⟩ := List.exists_cons_of_ne_nil hys
    have hx := hwrite x List.mem_cons_self
    have hcomma : ∀ tail, Ends (',' :: tail) := fun _ => ends_cons (by decide)
    cases xs with
    | nil =>
      cases ys with
      | nil =>
        simp only [lines, List.append_assoc, List.append_cancel_left_eq] at h
        obtain ⟨rfl, hrest⟩ := hx (ends_newline outer _) (ends_newline outer _) h
        exact ⟨rfl, List.append_cancel_left hrest⟩
      | cons next ys =>
        simp only [lines, List.append_assoc, List.append_cancel_left_eq, List.cons_append] at h
        obtain ⟨-, hrest⟩ := hx (ends_newline outer _) (hcomma _) h
        exact absurd (List.cons.inj hrest).1 (by decide)
    | cons next xs =>
      cases ys with
      | nil =>
        simp only [lines, List.append_assoc, List.append_cancel_left_eq, List.cons_append] at h
        obtain ⟨-, hrest⟩ := hx (hcomma _) (ends_newline outer _) h
        exact absurd (List.cons.inj hrest).1 (by decide)
      | cons next' ys =>
        simp only [lines, List.append_assoc, List.append_cancel_left_eq, List.cons_append] at h
        obtain ⟨rfl, hrest⟩ := hx (hcomma _) (hcomma _) h
        obtain ⟨hxs, rfl⟩ := ih (fun z hz => hwrite z (List.mem_cons_of_mem _ hz))
          (List.cons_ne_nil _ _) (List.cons_ne_nil _ _) (List.cons.inj hrest).2
        exact ⟨by rw [hxs], rfl⟩

def enclosed (level : Nat) (write : α → List Char) (close : Char) : List α → List Char
  | [] => [close]
  | x :: xs => lines (level + 1) write (x :: xs) ++ newline level ++ [close]

theorem enclosed_inj {xs ys : List α} {rest rest' : List Char}
    (hwrite : ∀ x ∈ xs, Delimits write x) (hclose : close ≠ '\n')
    (h : enclosed level write close xs ++ rest = enclosed level write close ys ++ rest') :
    xs = ys ∧ rest = rest' := by
  have hline : ∀ (z : α) zs tail,
      ∃ tail', lines (level + 1) write (z :: zs) ++ tail = '\n' :: tail' := by
    intro z zs tail
    cases zs with
    | nil => exact ⟨_, rfl⟩
    | cons next zs => exact ⟨_, rfl⟩
  cases xs with
  | nil =>
    cases ys with
    | nil => simpa [enclosed] using h
    | cons y ys =>
      simp only [enclosed, List.append_assoc] at h
      obtain ⟨tail, htail⟩ := hline y ys _
      rw [htail] at h
      exact absurd (List.cons.inj h).1 hclose
  | cons x xs =>
    cases ys with
    | nil =>
      simp only [enclosed, List.append_assoc] at h
      obtain ⟨tail, htail⟩ := hline x xs _
      rw [htail] at h
      exact absurd (List.cons.inj h).1.symm hclose
    | cons y ys =>
      simp only [enclosed, List.append_assoc] at h
      obtain ⟨hxs, hrest⟩ := lines_inj hwrite (List.cons_ne_nil _ _) (List.cons_ne_nil _ _) h
      exact ⟨hxs, List.append_cancel_left hrest⟩

end Lines

section Forms

inductive Form
  | null
  | bool
  | number
  | text
  | list
  | object
  deriving DecidableEq

def form : Json → Form
  | null => .null
  | bool _ => .bool
  | int _ => .number
  | float _ _ => .number
  | text _ => .text
  | list _ => .list
  | object _ => .object

def Form.ofChar (c : Char) : Form :=
  if isNumberChar c then .number
  else if c = '"' then .text
  else if c = '[' then .list
  else if c = '\x7b' then .object
  else if c = 'n' then .null
  else .bool

theorem indentedItems_eq (level : Nat) : ∀ items : List Json,
    indentedItems level items = lines level (indented level) items
  | [] => by simp [indentedItems, lines]
  | [item] => by simp [indentedItems, lines]
  | item :: next :: rest => by
    simp [indentedItems, lines, indentedItems_eq level (next :: rest)]

def memberText (level : Nat) (m : String × Json) : List Char :=
  quotedText m.1 ++ ": ".toList ++ indented level m.2

theorem indentedMembers_eq (level : Nat) : ∀ members : List (String × Json),
    indentedMembers level members = lines level (memberText level) members
  | [] => by simp [indentedMembers, lines]
  | [member] => by simp [indentedMembers, lines, memberText]
  | member :: next :: rest => by
    simp [indentedMembers, lines, memberText, indentedMembers_eq level (next :: rest)]

theorem indented_list (level : Nat) (items : List Json) : indented level (list items) =
    '[' :: enclosed level (indented (level + 1)) ']' items := by
  cases items with
  | nil => simp [indented, enclosed]
  | cons item rest => simp [indented, enclosed, indentedItems_eq]

theorem indented_object (level : Nat) (members : List (String × Json)) :
    indented level (object members) =
      '\x7b' :: enclosed level (memberText (level + 1)) '\x7d' members := by
  cases members with
  | nil => simp [indented, enclosed]
  | cons member rest => simp [indented, enclosed, indentedMembers_eq]

theorem indented_form (level : Nat) (p : Json) :
    ∃ c rest, indented level p = c :: rest ∧ Form.ofChar c = form p := by
  have hnumber : ∀ {text : List Char}, text ≠ [] → (∀ c ∈ text, isNumberChar c = true) →
      ∃ c rest, text = c :: rest ∧ Form.ofChar c = .number := by
    intro text hne hchars
    obtain ⟨c, rest, rfl⟩ := List.exists_cons_of_ne_nil hne
    exact ⟨c, rest, rfl, by rw [Form.ofChar, if_pos (hchars c List.mem_cons_self)]⟩
  cases p with
  | null => exact ⟨'n', "ull".toList, by simp [indented], by decide⟩
  | bool value =>
    cases value with
    | true => exact ⟨'t', "rue".toList, by simp [indented], by decide⟩
    | false => exact ⟨'f', "alse".toList, by simp [indented], by decide⟩
  | int n =>
    rw [indented]
    refine hnumber ?_ (isNumberChar_intText n)
    rw [intText_eq]
    simp
  | float negative position =>
    rw [indented]
    refine hnumber ?_ (isNumberChar_floatText negative position)
    obtain ⟨c, rest, hhead, -⟩ := (marked_magnitudeText position.isLt).head
    simp [floatText, hhead]
  | text s => exact ⟨'"', _, by rw [indented, quotedText, List.cons_append], rfl⟩
  | list items => exact ⟨'[', _, indented_list level items, rfl⟩
  | object members => exact ⟨'\x7b', _, indented_object level members, rfl⟩

end Forms

section Payloads

@[elab_as_elim]
theorem induct {motive : Json → Prop} (null : motive null) (bool : ∀ value, motive (bool value))
    (int : ∀ n, motive (int n)) (float : ∀ negative position, motive (float negative position))
    (text : ∀ s, motive (text s)) (list : ∀ items, (∀ x ∈ items, motive x) → motive (list items))
    (object : ∀ members, (∀ m ∈ members, motive m.2) → motive (object members)) :
    ∀ p, motive p
  | .null => null
  | .bool value => bool value
  | .int n => int n
  | .float negative position => float negative position
  | .text s => text s
  | .list items => list items fun x _ => induct null bool int float text list object x
  | .object members =>
    object members fun m _ => induct null bool int float text list object m.2
decreasing_by
  all_goals simp_wf
  · next hx =>
    have := List.sizeOf_lt_of_mem hx
    omega
  · next hm =>
    have := List.sizeOf_lt_of_mem hm
    cases m
    simp at this ⊢
    omega

theorem form_eq_of_append {level : Nat} {p q : Json} {rest rest' : List Char}
    (h : indented level p ++ rest = indented level q ++ rest') : form p = form q := by
  obtain ⟨c, tail, hp, hc⟩ := indented_form level p
  obtain ⟨d, tail', hq, hd⟩ := indented_form level q
  rw [hp, hq, List.cons_append, List.cons_append] at h
  rw [← hc, ← hd, (List.cons.inj h).1]

section Numbers

variable {p q : Json} {level : Nat} (hp : form p = .number)
include hp

theorem isNumberChar_indented : ∀ c ∈ indented level p, isNumberChar c = true := by
  cases p with
  | int n =>
    rw [indented]
    exact isNumberChar_intText n
  | float negative position =>
    rw [indented]
    exact isNumberChar_floatText negative position
  | _ => cases hp

theorem indented_number_inj (hq : form q = .number) (h : indented level p = indented level q) :
    p = q := by
  cases p with
  | int n =>
    cases q with
    | int n' =>
      simp only [indented] at h
      rw [intText_injective h]
    | float negative position =>
      simp only [indented] at h
      exact absurd h (intText_ne_floatText n negative position)
    | _ => cases hq
  | float negative position =>
    cases q with
    | int n =>
      simp only [indented] at h
      exact absurd h.symm (intText_ne_floatText n negative position)
    | float negative' position' =>
      simp only [indented] at h
      obtain ⟨rfl, rfl⟩ := floatText_injective h
      rfl
    | _ => cases hq
  | _ => cases hp

theorem delimits_number : Delimits (indented level) p := by
  intro q rest rest' hrest hrest' h
  have hq : form q = .number := (form_eq_of_append h).symm.trans hp
  obtain ⟨htext, hleft⟩ := hrest.number_inj hrest' (isNumberChar_indented hp)
    (isNumberChar_indented hq) h
  exact ⟨indented_number_inj hp hq htext, hleft⟩

end Numbers

/-- In front of what follows a payload, its text is that of no other payload. -/
theorem delimits_indented (p : Json) (level : Nat) : Delimits (indented level) p := by
  -- The first character tells the form, so that only payloads of the same form are compared.
  induction p using induct generalizing level with
  | null =>
    intro q rest rest' hrest hrest' h
    have hform := form_eq_of_append h
    cases q <;> simp only [form, reduceCtorEq] at hform
    exact ⟨rfl, List.append_cancel_left h⟩
  | bool value =>
    intro q rest rest' hrest hrest' h
    have hform := form_eq_of_append h
    cases q <;> simp only [form, reduceCtorEq] at hform
    next value' => cases value <;> cases value' <;> simp [indented] at h <;> simp [h]
  | int n => exact delimits_number rfl
  | float negative position => exact delimits_number rfl
  | text s =>
    intro q rest rest' hrest hrest' h
    have hform := form_eq_of_append h
    cases q <;> simp only [form, reduceCtorEq] at hform
    simp only [indented] at h
    obtain ⟨rfl, rfl⟩ := quotedText_inj h
    exact ⟨rfl, rfl⟩
  | list items ih =>
    intro q rest rest' hrest hrest' h
    have hform := form_eq_of_append h
    cases q <;> simp only [form, reduceCtorEq] at hform
    rw [indented_list, indented_list] at h
    obtain ⟨rfl, rfl⟩ := enclosed_inj (fun x hx => ih x hx (level + 1)) (by decide)
      (List.cons.inj h).2
    exact ⟨rfl, rfl⟩
  | object members ih =>
    intro q rest rest' hrest hrest' h
    have hform := form_eq_of_append h
    cases q <;> simp only [form, reduceCtorEq] at hform
    have hmembers : ∀ m ∈ members, Delimits (memberText (level + 1)) m := by
      intro m hm m' rest rest' hrest hrest' h
      simp only [memberText, List.append_assoc] at h
      obtain ⟨hname, hvalue⟩ := quotedText_inj h
      obtain ⟨hpayload, hleft⟩ := ih m hm (level + 1) hrest hrest'
        (List.append_cancel_left hvalue)
      exact ⟨Prod.ext hname hpayload, hleft⟩
    rw [indented_object, indented_object] at h
    obtain ⟨rfl, rfl⟩ := enclosed_inj hmembers (by decide) (List.cons.inj h).2
    exact ⟨rfl, rfl⟩

theorem indented_injective : Function.Injective (indented 0) := by
  intro p q h
  have hchars : indented 0 p ++ [] = indented 0 q ++ [] := by
    rw [List.append_nil, List.append_nil, h]
  have hnil : Ends [] := by simp [Ends]
  exact (delimits_indented p 0 hnil hnil hchars).1

end Payloads

end KeyedRender.Json

namespace KeyedRender.Payload

theorem indentedText_injective : Function.Injective indentedText :=
  fun _ _ h => Payload.ext (Json.indented_injective (String.ofList_injective h))

end KeyedRender.Payload

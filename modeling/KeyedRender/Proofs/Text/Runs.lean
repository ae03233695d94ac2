import Mathlib.Data.List.TakeWhile

/-!
# Runs of characters

A run goes as far as its characters are accepted. It is found again in front of a text that is
empty or starts with a character that is not accepted.
-/
namespace KeyedRender.Text

variable {accepts : Char → Bool} {run rest text : List Char}

theorem takeWhile_run (hrun : ∀ c ∈ run, accepts c = true)
    (hrest : ∀ c ∈ rest.head?, accepts c = false) : (run ++ rest).takeWhile accepts = run := by
  have hnone : rest.takeWhile accepts = [] := by
    cases rest with
    | nil => rfl
    | cons c rest => exact List.takeWhile_cons_of_neg (by simp [hrest c rfl])
  rw [List.takeWhile_append_of_pos hrun, hnone, List.append_nil]

theorem dropWhile_run (hrun : ∀ c ∈ run, accepts c = true)
    (hrest : ∀ c ∈ rest.head?, accepts c = false) : (run ++ rest).dropWhile accepts = rest := by
  rw [List.dropWhile_append_of_pos hrun]
  cases rest with
  | nil => rfl
  | cons c rest => exact List.dropWhile_cons_of_neg (by simp [hrest c rfl])

theorem trim_eq_self (h : ∀ c ∈ text, accepts c = false) :
    ((text.dropWhile accepts).reverse.dropWhile accepts).reverse = text := by
  have hkept : ∀ {chars : List Char}, (∀ c ∈ chars, accepts c = false) →
      chars.dropWhile accepts = chars := by
    intro chars hchars
    exact @dropWhile_run accepts [] chars (by simp) fun c hc => hchars c (List.mem_of_mem_head? hc)
  rw [hkept h, hkept fun c hc => h c (List.mem_reverse.1 hc), List.reverse_reverse]

theorem takeWhile_eq_nil_iff :
    text.takeWhile accepts = [] ↔ ∀ c ∈ text.head?, accepts c = false := by
  cases text with
  | nil => simp
  | cons c text => simp

theorem head?_dropWhile (accepts : Char → Bool) (text : List Char) :
    ∀ c ∈ (text.dropWhile accepts).head?, accepts c = false := by
  intro c hc
  have hhead := List.head?_dropWhile_not accepts text
  rw [Option.mem_def.1 hc] at hhead
  exact hhead

end KeyedRender.Text

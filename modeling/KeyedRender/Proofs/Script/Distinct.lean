import Mathlib.Data.List.Induction

/-!
# First occurrences

A list without its repetitions keeps the first occurrence of everything in it. It grows as the
list does, by what the list did not have.
-/
namespace KeyedRender

variable {α : Type} [BEq α] [LawfulBEq α]

theorem eraseDups_concat_of_mem {l : List α} {a : α} (h : a ∈ l) :
    (l ++ [a]).eraseDups = l.eraseDups := by
  have hnone : [a].removeAll l = [] := by simp [List.removeAll, h]
  rw [List.eraseDups_append, hnone, List.eraseDups_nil, List.append_nil]

theorem eraseDups_concat_of_notMem {l : List α} {a : α} (h : a ∉ l) :
    (l ++ [a]).eraseDups = l.eraseDups ++ [a] := by
  have hone : [a].removeAll l = [a] := by simp [List.removeAll, h]
  have hself : [a].eraseDups = [a] := by simp [List.eraseDups_cons]
  rw [List.eraseDups_append, hone, hself]

theorem nodup_eraseDups (l : List α) : l.eraseDups.Nodup := by
  induction l using List.reverseRecOn with
  | nil => simp
  | append_singleton rest a ih =>
    by_cases h : a ∈ rest
    · rwa [eraseDups_concat_of_mem h]
    · rw [eraseDups_concat_of_notMem h]
      have hne : ∀ b ∈ rest.eraseDups, b ≠ a := fun b hb heq =>
        h (heq ▸ List.mem_eraseDups.1 hb)
      simpa [List.nodup_append, ih] using hne

end KeyedRender

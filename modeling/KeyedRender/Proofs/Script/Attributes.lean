import KeyedRender.Proofs.Script.Outline
import KeyedRender.Render.Patch
import Mathlib.Data.List.Sort
import Mathlib.Data.String.Basic

/-!
# The line of attributes

The attributes of an element are written on one line, each name once, in the order of the items.
The line depends on the values that the names have at last and on nothing else: neither on the
order in which they were set nor on the values before. The scripts that set attributes may write
text, work on the keys and log in between.
-/
namespace KeyedRender

/-- The value that a name has after some settings, if it was set. -/
def finalValue? (settings : List (String × String)) (name : String) : Option String :=
  settings.reverse.lookup name

def attributeItem (entry : String × String) : String := entry.1 ++ "=" ++ entry.2

/-- The line has one item for each name that was set, with its last value, all in order. -/
structure IsAttributesLine (settings : List (String × String)) (line : String)
    (entries : List (String × String)) : Prop where
  names : (entries.map Prod.fst).Nodup
  values : ∀ {name value}, (name, value) ∈ entries ↔ finalValue? settings name = some value
  order : (entries.map attributeItem).Pairwise (· ≤ ·)
  line : line = " ".intercalate (entries.map attributeItem)

section Settled

variable {settings others : List (String × String)}

theorem mem_names_iff {name : String} :
    name ∈ settings.map Prod.fst ↔ ∃ value, finalValue? settings name = some value := by
  rw [← Option.ne_none_iff_exists', ne_eq, finalValue?, List.lookup_eq_none_iff]
  simp

theorem mem_settled_iff {name value : String} :
    (name, value) ∈ settled settings ↔ finalValue? settings name = some value := by
  have hlast : ∀ {v}, finalValue? settings name = some v → lastValue settings name = v :=
    fun h => by rw [lastValue, show settings.reverse.lookup name = _ from h, Option.getD_some]
  simp only [settled, List.mem_map, List.mem_eraseDups, Prod.mk.injEq]
  constructor
  · rintro ⟨_, hname, rfl, rfl⟩
    obtain ⟨v, hv⟩ := mem_names_iff.1 (List.mem_map.2 hname)
    rw [hlast hv, hv]
  · intro h
    exact ⟨name, List.mem_map.1 (mem_names_iff.2 ⟨value, h⟩), rfl, hlast h⟩

theorem nodup_settled (settings : List (String × String)) :
    ((settled settings).map Prod.fst).Nodup := by
  simpa [settled, Function.comp_def] using nodup_eraseDups (settings.map Prod.fst)

theorem perm_settled (h : ∀ name, finalValue? settings name = finalValue? others name) :
    (settled settings).Perm (settled others) := by
  refine (List.perm_ext_iff_of_nodup (nodup_settled _).of_map (nodup_settled _).of_map).2 ?_
  rintro ⟨name, value⟩
  rw [mem_settled_iff, mem_settled_iff, h]

end Settled

namespace RenderM

theorem attributesLine_eq (attributes : List (String × String)) : attributesLine attributes =
    " ".intercalate ((attributes.map attributeItem).mergeSort (· ≤ ·)) := rfl

theorem attributesLine_perm {attributes others : List (String × String)}
    (h : attributes.Perm others) : attributesLine attributes = attributesLine others := by
  have hitems : ((attributes.map attributeItem).mergeSort (· ≤ ·)).Perm
      ((others.map attributeItem).mergeSort (· ≤ ·)) :=
    (List.mergeSort_perm ..).trans ((h.map _).trans (List.mergeSort_perm ..).symm)
  rw [attributesLine_eq, attributesLine_eq,
    hitems.eq_of_sortedLE List.sortedLE_mergeSort List.sortedLE_mergeSort]

theorem isAttributesLine_settled (settings : List (String × String)) :
    ∃ entries, IsAttributesLine settings (attributesLine (settled settings)) entries := by
  have hitems := List.map_mergeSort (r := fun a b => decide (attributeItem a ≤ attributeItem b))
    (s := fun a b => decide (a ≤ b)) (f := attributeItem) (l := settled settings)
    fun _ _ _ _ => rfl
  have hperm := List.mergeSort_perm (settled settings)
    fun a b => decide (attributeItem a ≤ attributeItem b)
  refine ⟨_, (hperm.map _).nodup_iff.2 (nodup_settled settings), ?_, ?_, ?_⟩
  · intro name value
    rw [hperm.mem_iff, mem_settled_iff]
  · rw [hitems]
    exact List.sortedLE_mergeSort.pairwise
  · rw [hitems, attributesLine_eq]

end RenderM

/-- A step that sets attributes, writes text, works on the keys or logs. What may only be logged
needs a logger. -/
def Instruction.Decorates (logger : Option LoggerId) : Instruction → Prop
  | .setAttribute _ _ => True
  | .applyStatics _ => True
  | .text _ => True
  | .parameter => True
  | .injected => True
  | .pushKey _ => True
  | .popKey _ => True
  | .newKey _ => True
  | .currentKey => True
  | .pushManualKey _ => True
  | .popManualKey => True
  | .enter _ _ => True
  | .exit => True
  | .logger => True
  | .setLogger _ => True
  | .evaluateLogging _ _ _ => True
  | .verifyLogOnly logOnly => logOnly = true → logger.isSome = true
  | _ => False

def Instruction.loggerAfter (logger : Option LoggerId) : Instruction → Option LoggerId
  | .setLogger new => new
  | _ => logger

/-- A script of such steps, and the logger that it starts with. -/
inductive Script.Decorates : Option LoggerId → Script → Prop
  | done {logger : Option LoggerId} : Decorates logger .done
  | step {logger : Option LoggerId} {i : Instruction} {next : Script} : i.Decorates logger →
      Decorates (i.loggerAfter logger) next → Decorates logger (.step i next)

def Script.settings : Script → List (String × String)
  | .step i next => i.settings ++ next.settings
  | _ => []

end KeyedRender

import KeyedRender.Key.Stack
import KeyedRender.Proofs.Key.RoundTrip
import Mathlib.Data.List.Induction

/-!
# Scopes as lists of fragments

A stack of keys stands for lists of fragments, one for the root and one for each manual scope. Its
users push and pop scopes in any order; what they restore after a call is nothing at all or a key
that some earlier call was given. Every such use keeps the keys composite, so that the fragments in
force can be read off them.
-/
namespace KeyedRender.Key

/-- A call is restored to the key that an earlier call was given, by its number, or to none. -/
inductive Command
  | pushManual (fragment : Fragment)
  | popManual
  | pushCall (fragment : Fragment)
  | popCall (call : Option Nat)
deriving DecidableEq

def Command.pushed? : Command → Option Fragment
  | .pushManual fragment => some fragment
  | .pushCall fragment => some fragment
  | _ => none

structure Use where
  stack : Stack
  given : List String
deriving DecidableEq

namespace Use

def start : Use := ⟨.empty, []⟩

def restored (u : Use) (call : Option Nat) : String := call.elim "" fun k => u.given.getD k ""

def step (u : Use) : Command → Use
  | .pushManual fragment => { u with stack := u.stack.pushManual fragment }
  | .popManual => { u with stack := u.stack.popManual }
  | .pushCall fragment => ⟨u.stack.pushCall fragment, u.given ++ [u.stack.current]⟩
  | .popCall call => { u with stack := u.stack.popCall (u.restored call) }

def run (commands : List Command) : Use := commands.foldl step start

theorem run_concat (commands : List Command) (c : Command) :
    run (commands ++ [c]) = (run commands).step c := by
  simp [run]

end Use

/-- The lists of fragments that a stack stands for, with those that calls were given. -/
structure Lists where
  root : List Fragment
  scopes : List (List Fragment)
  given : List (List Fragment)
deriving DecidableEq

namespace Lists

def start : Lists := ⟨[], [], []⟩

def top (l : Lists) : List Fragment := l.scopes.headD l.root

def setTop (l : Lists) (fragments : List Fragment) : Lists :=
  match l.scopes with
  | [] => { l with root := fragments }
  | _ :: below => { l with scopes := fragments :: below }

def restored (l : Lists) (call : Option Nat) : List Fragment :=
  call.elim [] fun k => l.given.getD k []

def step (l : Lists) : Command → Lists
  | .pushManual fragment => { l with scopes := [fragment] :: l.scopes }
  | .popManual => { l with scopes := l.scopes.tail }
  | .pushCall fragment => { l.setTop (fragment :: l.top) with given := l.given ++ [l.top] }
  | .popCall call => l.setTop (l.restored call)

def run (commands : List Command) : Lists := commands.foldl step start

theorem run_concat (commands : List Command) (c : Command) :
    run (commands ++ [c]) = (run commands).step c := by
  simp [run]

structure All (P : Fragment → Prop) (l : Lists) : Prop where
  root : ∀ f ∈ l.root, P f
  scopes : ∀ fs ∈ l.scopes, ∀ f ∈ fs, P f
  given : ∀ fs ∈ l.given, ∀ f ∈ fs, P f

namespace All

variable {P : Fragment → Prop} {l : Lists}

theorem top (h : l.All P) : ∀ f ∈ l.top, P f := by
  unfold Lists.top
  cases hscopes : l.scopes with
  | nil => exact h.root
  | cons first below => exact h.scopes first (by simp [hscopes])

theorem setTop (h : l.All P) {fragments : List Fragment} (hf : ∀ f ∈ fragments, P f) :
    (l.setTop fragments).All P := by
  unfold Lists.setTop
  split
  · exact ⟨hf, h.scopes, h.given⟩
  · next first below heq =>
    refine ⟨h.root, fun fs hfs => ?_, h.given⟩
    obtain rfl | hbelow := List.mem_cons.1 hfs
    · exact hf
    · exact h.scopes fs (by simp [heq, hbelow])

theorem restored (h : l.All P) (call : Option Nat) : ∀ f ∈ l.restored call, P f := by
  cases call with
  | none => exact fun f hf => absurd hf List.not_mem_nil
  | some k =>
    intro f hf
    rw [Lists.restored, Option.elim_some, List.getD_eq_getElem?_getD] at hf
    cases hk : l.given[k]? with
    | none => simp [hk] at hf
    | some fs => exact h.given fs (List.mem_of_getElem? hk) f (by simpa [hk] using hf)

theorem step (h : l.All P) {c : Command} (hc : ∀ f ∈ c.pushed?, P f) : (l.step c).All P := by
  cases c with
  | pushManual fragment =>
    refine ⟨h.root, fun fs hfs => ?_, h.given⟩
    obtain rfl | hbelow := List.mem_cons.1 hfs
    · exact fun f hf => hc f (by simp_all [Command.pushed?])
    · exact h.scopes fs hbelow
  | popManual => exact ⟨h.root, fun fs hfs => h.scopes fs (List.mem_of_mem_tail hfs), h.given⟩
  | pushCall fragment =>
    have hnew : ∀ f ∈ fragment :: l.top, P f :=
      List.forall_mem_cons.2 ⟨hc fragment rfl, h.top⟩
    have hset := h.setTop hnew
    refine ⟨hset.root, hset.scopes, fun fs hfs => ?_⟩
    obtain hgiven | rfl := List.mem_append.1 hfs |>.imp_right List.mem_singleton.1
    · exact h.given fs hgiven
    · exact h.top
  | popCall call => exact h.setTop (h.restored call)

theorem run {commands : List Command} (h : ∀ c ∈ commands, ∀ f ∈ c.pushed?, P f) :
    (Lists.run commands).All P := by
  induction commands using List.reverseRecOn with
  | nil =>
    refine ⟨fun f hf => ?_, fun fs hfs => ?_, fun fs hfs => ?_⟩
    · exact absurd hf List.not_mem_nil
    · exact absurd hfs List.not_mem_nil
    · exact absurd hfs List.not_mem_nil
  | append_singleton commands c ih =>
    rw [run_concat]
    exact (ih fun d hd => h d (List.mem_append_left _ hd)).step
      (h c (List.mem_append_right _ List.mem_cons_self))

end All

end Lists

structure Represents (u : Use) (l : Lists) : Prop where
  root : u.stack.root = composite l.root
  scopes : u.stack.scopes = l.scopes.map composite
  given : u.given = l.given.map composite

namespace Represents

variable {u : Use} {l : Lists}

theorem current (h : Represents u l) : u.stack.current = composite l.top := by
  rw [Stack.current, h.scopes, h.root, Lists.top]
  cases l.scopes <;> rfl

theorem newKey (h : Represents u l) (f : Fragment) :
    u.stack.newKey f = composite (f :: l.top) := by
  rw [Stack.newKey, h.current, composite]

theorem depth (h : Represents u l) : u.stack.depth = l.scopes.length := by
  rw [Stack.depth, h.scopes, List.length_map]

theorem restored (h : Represents u l) (call : Option Nat) :
    u.restored call = composite (l.restored call) := by
  cases call with
  | none => rfl
  | some k =>
    simp only [Use.restored, Lists.restored, Option.elim_some, h.given,
      List.getD_eq_getElem?_getD, List.getElem?_map]
    cases l.given[k]? <;> rfl

theorem setCurrent (h : Represents u l) (fragments : List Fragment) :
    Represents { u with stack := u.stack.setCurrent (composite fragments) }
      (l.setTop fragments) := by
  unfold Stack.setCurrent Lists.setTop
  have hscopes := h.scopes
  cases hl : l.scopes with
  | nil =>
    rw [hl, List.map_nil] at hscopes
    simp only [hscopes]
    exact ⟨rfl, by simp, h.given⟩
  | cons first below =>
    rw [hl, List.map_cons] at hscopes
    simp only [hscopes]
    exact ⟨h.root, rfl, h.given⟩

theorem step (h : Represents u l) (c : Command) : Represents (u.step c) (l.step c) := by
  cases c with
  | pushManual fragment =>
    refine ⟨h.root, ?_, h.given⟩
    simp [Use.step, Lists.step, Stack.pushManual, h.scopes, composite]
  | popManual =>
    refine ⟨h.root, ?_, h.given⟩
    simp [Use.step, Lists.step, Stack.popManual, h.scopes]
  | pushCall fragment =>
    have hset := h.setCurrent (fragment :: l.top)
    rw [← h.newKey] at hset
    refine ⟨hset.root, hset.scopes, ?_⟩
    simp [Use.step, Lists.step, h.given, h.current]
  | popCall call =>
    have hset := h.setCurrent (l.restored call)
    rw [← h.restored] at hset
    exact hset

theorem run (commands : List Command) : Represents (.run commands) (.run commands) := by
  induction commands using List.reverseRecOn with
  | nil => exact ⟨rfl, rfl, rfl⟩
  | append_singleton commands c ih =>
    rw [Use.run_concat, Lists.run_concat]
    exact ih.step c

end Represents

def Fragment.text? : Fragment → Option String
  | .text value => some value
  | _ => none

/-- A text whose length in code units is a word, as it is of every text that memory has room for. -/
def Fragment.Fits (f : Fragment) : Prop :=
  ∀ text ∈ f.text?, Text.units text.toList < Text.words64

instance (f : Fragment) : Decidable f.Fits := inferInstanceAs (Decidable (∀ text ∈ f.text?, _))

theorem decode_composite_of_fits {fs : List Fragment} (h : ∀ f ∈ fs, f.Fits) :
    decode (composite fs) = ⟨fs.map Fragment.chunk, none⟩ :=
  collect_composite (fun text hmem => h (.text text) hmem text rfl) 0

/-- Whatever commands ran, the stack stands for the lists of the same commands. The current key is
the composite key of the topmost list. It and the key of one more fragment can be read to their
ends, which gives the kinds and texts of that list, from the innermost call on. The depth is the
number of manual scopes. -/
theorem decode_current_of_run {commands : List Command} {fragment : Fragment}
    (hpushed : ∀ c ∈ commands, ∀ f ∈ c.pushed?, f.Fits) (hfragment : fragment.Fits) :
    Represents (.run commands) (.run commands) ∧
      (Use.run commands).stack.current = composite (Lists.run commands).top ∧
      decode (Use.run commands).stack.current =
        ⟨(Lists.run commands).top.map fun f => ⟨f.kind, f.content⟩, none⟩ ∧
      decode ((Use.run commands).stack.newKey fragment) =
        ⟨(fragment :: (Lists.run commands).top).map fun f => ⟨f.kind, f.content⟩, none⟩ ∧
      (Use.run commands).stack.depth = (Lists.run commands).scopes.length := by
  have hrep := Represents.run commands
  have htop : ∀ f ∈ (Lists.run commands).top, f.Fits := (Lists.All.run hpushed).top
  refine ⟨hrep, hrep.current, ?current, ?newKey, hrep.depth⟩
  case current => rw [hrep.current]; exact decode_composite_of_fits htop
  case newKey =>
    rw [hrep.newKey]
    exact decode_composite_of_fits (List.forall_mem_cons.2 ⟨hfragment, htop⟩)

/-- The root is popped, a call ends in the scope of another one, and a key is restored twice. -/
def crossedCommands : List Command :=
  [.popManual, .pushCall (.text "12:_"), .pushManual .absent, .pushCall (.text "b"), .popManual,
    .popCall (some 1), .pushManual (.text "x"), .pushCall (.text "y"), .popCall (some 1)]

theorem decode_current_of_run_crossed :
    decode ((Use.run crossedCommands).stack.newKey (.text "3𝄞")) =
        ⟨[⟨.text, "3𝄞".toList⟩, ⟨.absent, "null".toList⟩], none⟩ ∧
      (Use.run crossedCommands).stack.depth = 1 := by
  have hpushed : ∀ c ∈ crossedCommands, ∀ f ∈ c.pushed?, f.Fits := by decide
  have hfits : (Fragment.text "3𝄞").Fits := by decide
  have h := decode_current_of_run hpushed hfits
  exact ⟨h.2.2.2.1, h.2.2.2.2⟩

end KeyedRender.Key

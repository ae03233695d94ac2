import KeyedRender.Proofs.Render.Stable

/-!
# What a plain script draws

A plain script opens and closes elements, writes texts, sets attributes and works on the keys.
Read without any target it draws shapes: texts, and elements with the attributes set on them. A
target draws if each of its calls succeeds and adds what it stands for.
-/
namespace KeyedRender

/-- The attributes of an element are those set on it, the latest first. -/
inductive Shape
  | element (name : String) (assigned : List (String × String)) (inner : List Shape)
  | text (value : String)

structure Level where
  assigned : List (String × String)
  shapes : List Shape

def Level.blank : Level := ⟨[], []⟩

def Level.add (shape : Shape) (l : Level) : Level := { l with shapes := l.shapes ++ [shape] }

/-- The levels around the innermost one come with the name of the element that is open in them. -/
structure Sketch where
  level : Level
  outer : List (String × Level)

namespace Sketch

def blank : Sketch := ⟨.blank, []⟩

def opened (name : String) (sk : Sketch) : Sketch := ⟨.blank, (name, sk.level) :: sk.outer⟩

def closed (sk : Sketch) : Sketch :=
  match sk.outer with
  | [] => sk
  | (name, around) :: outer =>
    ⟨around.add (.element name sk.level.assigned sk.level.shapes), outer⟩

def written (value : String) (sk : Sketch) : Sketch := ⟨sk.level.add (.text value), sk.outer⟩

def assigned (name value : String) (sk : Sketch) : Sketch :=
  ⟨{ sk.level with assigned := (name, value) :: sk.level.assigned }, sk.outer⟩

def assignedAll (attributes : List (String × String)) (sk : Sketch) : Sketch :=
  attributes.foldl (fun sk (name, value) => sk.assigned name value) sk

@[simp] theorem outer_assignedAll (attributes : List (String × String)) (sk : Sketch) :
    (sk.assignedAll attributes).outer = sk.outer := by
  induction attributes generalizing sk with
  | nil => rfl
  | cons a rest ih => exact ih (sk.assigned a.1 a.2)

end Sketch

def Instruction.draw : Instruction → Sketch → Sketch
  | .openElement name _, sk => sk.opened name
  | .closeElement, sk => sk.closed
  | .text value, sk => sk.written value
  | .setAttribute name value, sk => sk.assigned name value
  | .applyStatics attributes, sk => sk.assignedAll attributes
  | _, sk => sk

def Script.draw : Script → Sketch → Sketch
  | .step i next, sk => next.draw (i.draw sk)
  | _, sk => sk

def Instruction.IsPlain : Instruction → Prop
  | .text _ => True
  | .setAttribute _ _ => True
  | .applyAttributes => True
  | .applyStatics _ => True
  | .pushKey _ => True
  | .popKey _ => True
  | .newKey _ => True
  | .currentKey => True
  | .pushManualKey _ => True
  | .popManualKey => True
  | _ => False

/-- A plain script that closes every element that it opens, and a number of open ones. -/
inductive Script.Balanced : Nat → Script → Prop
  | done : Balanced 0 .done
  | opening {depth : Nat} {next : Script} (name key : String) : Balanced (depth + 1) next →
      Balanced depth (.step (.openElement name key) next)
  | closing {depth : Nat} {next : Script} : Balanced depth next →
      Balanced (depth + 1) (.step .closeElement next)
  | plain {depth : Nat} {next : Script} {i : Instruction} : i.IsPlain → Balanced depth next →
      Balanced depth (.step i next)

def Exits.sure (τ : Type) : Exits τ := ⟨fun _ => False, 0, fun _ _ => False⟩

structure Draws {τ : Type} [RenderTarget τ] (D : Sketch → Condition τ) : Prop where
  opened : ∀ {sk t g} name key, D sk t g →
    Allows (fun _ => False) (fun r => D (sk.opened name) r.2 g)
      (RenderTarget.apply (.openElement name key) t)
  closed : ∀ {sk t g}, sk.outer ≠ [] → D sk t g →
    Allows (fun _ => False) (fun r => D sk.closed r.2 g) (RenderTarget.apply .closeElement t)
  written : ∀ {sk t g} value, D sk t g →
    Allows (fun _ => False) (fun r => D (sk.written value) r.2 g)
      (RenderTarget.apply (.text value) t)
  assigned : ∀ {sk t g} attributes, D sk t g →
    Allows (fun _ => False) (fun r => D (sk.assignedAll attributes) r.2 g)
      (RenderTarget.apply (.applyStatics attributes) t)
  attributed : ∀ {sk t g} name value, D sk t g →
    Allows (fun _ => False) (fun r => D (sk.assigned name value) r.2 g)
      (RenderTarget.apply (.setAttribute name value) t)
  property : ∀ {sk t g} name value, D sk t g →
    Allows (fun _ => False) (fun r => D sk r.2 g)
      (RenderTarget.apply (.setProperty name value) t)
  applied : ∀ {sk t g}, D sk t g →
    Allows (fun _ => False) (fun r => D sk r.2 g) (RenderTarget.apply .applyAttributes t)

namespace Draws

variable {τ : Type} [RenderTarget τ] {D : Sketch → Condition τ} {sk : Sketch}

theorem emit? {call : TargetCall} {P Q : Condition τ}
    (h : ∀ t g, P t g →
      Allows (fun _ => False) (fun r => Q r.2 g) (RenderTarget.apply call t)) :
    Triple (.sure τ) P (RenderM.emit? call) fun _ => Q :=
  .emit? (fun _ => h) fun hn => absurd rfl hn

theorem emit {call : TargetCall} {P Q : Condition τ}
    (h : ∀ t g, P t g →
      Allows (fun _ => False) (fun r => Q r.2 g) (RenderTarget.apply call t)) :
    Triple (.sure τ) P (RenderM.emit call) fun _ => Q :=
  .bind (emit? h) fun _ => .pure fun _ _ hq => hq

theorem openElement (h : Draws D) (name key : String) :
    Triple (.sure τ) (D sk) (RenderM.openElement name key) fun _ => D (sk.opened name) :=
  .bind_renderer fun _ _ => emit? fun _ _ hp => h.opened name _ hp.2

theorem setAttribute (h : Draws D) (name value : String) :
    Triple (.sure τ) (D sk) (RenderM.setAttribute name value) fun _ =>
      D (sk.assigned name value) := by
  have hproperty : ∀ property, Triple (.sure τ) (D (sk.assigned name value))
      (RenderM.emit (.setProperty name property)) fun _ => D (sk.assigned name value) :=
    fun property => emit fun _ _ hp => h.property name property hp
  refine .bind (emit fun _ _ hp => h.attributed name value hp) fun _ => ?_
  split
  · exact hproperty _
  · split
    · exact hproperty _
    · exact .pure fun _ _ hp => hp

theorem popKey (previous : Option String) :
    Quiet (Instruction.perform (τ := τ) (.popKey previous)) := by
  cases previous with
  | none => exact Quiet.takeSavedKey.bind fun _ => (Quiet.popKey _).bind fun _ => Quiet.pure
  | some previous => exact (Quiet.popKey _).bind fun _ => Quiet.pure

theorem plain (h : Draws D) {i : Instruction} (hi : i.IsPlain) :
    Triple (.sure τ) (D sk) i.perform fun _ => D (i.draw sk) := by
  cases i with
  | text value => exact .bind (emit? fun _ _ hp => h.written value hp) fun _ => .pure fun _ _ hp => hp
  | setAttribute name value =>
    exact .bind (h.setAttribute name value) fun _ => .pure fun _ _ hp => hp
  | applyAttributes => exact .bind (emit fun _ _ hp => h.applied hp) fun _ => .pure fun _ _ hp => hp
  | applyStatics attributes =>
    exact .bind (emit fun _ _ hp => h.assigned attributes hp) fun _ => .pure fun _ _ hp => hp
  | pushKey fragment =>
    exact ((Quiet.pushKey fragment).bind fun _ => (Quiet.saveKey _).bind fun _ => Quiet.pure).triple
  | popKey previous => exact (popKey previous).triple
  | newKey fragment => exact (Quiet.renderer.bind fun _ => Quiet.pure).triple
  | currentKey => exact (Quiet.renderer.bind fun _ => Quiet.pure).triple
  | pushManualKey fragment =>
    exact ((Quiet.pushManualKey fragment).bind fun _ => Quiet.pure).triple
  | popManualKey => exact (Quiet.popManualKey.bind fun _ => Quiet.pure).triple
  | _ => exact hi.elim

theorem outer_plain {i : Instruction} (hi : i.IsPlain) (sk : Sketch) :
    (i.draw sk).outer = sk.outer := by
  cases i with
  | applyStatics attributes => exact sk.outer_assignedAll attributes
  | openElement name key => exact hi.elim
  | closeElement => exact hi.elim
  | _ => rfl

theorem script (h : Draws D) {script : Script} {depth : Nat} (hs : script.Balanced depth)
    (hdepth : sk.outer.length = depth) :
    Triple (.sure τ) (D sk) (script.run τ) fun _ t g =>
      D (script.draw sk) t g ∧ (script.draw sk).outer = [] := by
  induction hs generalizing sk with
  | done => exact .pure fun _ _ hp => ⟨hp, List.eq_nil_of_length_eq_zero hdepth⟩
  | opening name key _ ih =>
    have hstep : Triple (.sure τ) (D sk) (Instruction.perform (.openElement name key)) fun _ =>
        D (sk.opened name) := .bind (h.openElement name key) fun _ => .pure fun _ _ hp => hp
    refine .bind hstep fun a => .bind (Quiet.answer _ a).triple fun _ => ih ?_
    simp [Sketch.opened, hdepth]
  | closing _ ih =>
    have hne : sk.outer ≠ [] := by
      rintro hnil
      simp [hnil] at hdepth
    have hstep : Triple (.sure τ) (D sk) (Instruction.perform .closeElement) fun _ => D sk.closed :=
      .bind (emit? fun _ _ hp => h.closed hne hp) fun _ => .pure fun _ _ hp => hp
    refine .bind hstep fun a => .bind (Quiet.answer _ a).triple fun _ => ih ?_
    obtain ⟨level, _ | ⟨around, outer⟩⟩ := sk
    · exact absurd rfl hne
    · simpa [Sketch.closed] using hdepth
  | plain hi _ ih =>
    refine .bind (h.plain hi) fun a => .bind (Quiet.answer _ a).triple fun _ => ih ?_
    rw [outer_plain hi, hdepth]

end Draws

end KeyedRender

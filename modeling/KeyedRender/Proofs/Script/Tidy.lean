import KeyedRender.Proofs.Script.Steady

/-!
# Tidy scripts

A tidy script closes what it opens, takes no step on the target itself, and its components stand
for elements that they opened. Where an attempt fails, nothing is open that the attempt opened. It
takes a stable family down to the level of the elements that were open before, whatever blocks and
components are nested in it.
-/
namespace KeyedRender

/-- A script that closes all that it opens, and a number of elements more. It may fail only while
it has certain numbers of elements left to close. -/
inductive Script.Tidy : (Nat → Prop) → Nat → Script → Prop
  | done {M : Nat → Prop} : Tidy M 0 .done
  | opening {M : Nat → Prop} {depth : Nat} {next : Script} (name key : String) :
      Tidy M (depth + 1) next → Tidy M depth (.step (.openElement name key) next)
  | closing {M : Nat → Prop} {depth : Nat} {next : Script} : Tidy M depth next →
      Tidy M (depth + 1) (.step .closeElement next)
  | skipping {M : Nat → Prop} {depth : Nat} {next : Script} : Tidy M depth next →
      Tidy M (depth + 1) (.step (.maybeSkip true) next)
  | flat {M : Nat → Prop} {depth : Nat} {next : Script} {i : Instruction} : i.IsFlat →
      i.call? = none → (i.MayFail → M depth) → Tidy M depth next → Tidy M depth (.step i next)
  | server {M : Nat → Prop} {depth : Nat} {body next : Script} (name key : String)
      (parameters : Option Payload) : M (depth + 1) → Tidy (fun d => M (d + depth)) 1 body →
      Tidy M depth next → Tidy M depth (.block (.openServerElement name key parameters) body next)
  | attempt {M : Nat → Prop} {depth : Nat} {body next : Script} : Tidy (fun d => d = 0) 0 body →
      Tidy M depth next → Tidy M depth (.block .attempt body next)
  | block {M : Nat → Prop} {depth : Nat} {body next : Script} {b : Block} : b ≠ .attempt →
      (∀ name key parameters, b ≠ .openServerElement name key parameters) → M depth →
      Tidy (fun d => M (d + depth)) 0 body → Tidy M depth next → Tidy M depth (.block b body next)
  | component {M : Nat → Prop} {depth : Nat} {before body next : Script} {spec : ComponentSpec} :
      spec.root.given? = none → Tidy (fun d => M (d + depth)) 0 before →
      Tidy (fun d => M (d + (depth + 1))) 0 body → Tidy M depth next →
      Tidy M depth (.component spec before body next)

theorem Script.Tidy.all {M : Nat → Prop} {script : Script} {depth : Nat} (h : script.Tidy M depth) :
    script.All fun i => i.call? = none := by
  induction h with
  | done => trivial
  | opening _ _ _ ih => exact ⟨rfl, ih⟩
  | closing _ ih => exact ⟨rfl, ih⟩
  | skipping _ ih => exact ⟨rfl, ih⟩
  | flat _ hi _ _ ih => exact ⟨hi, ih⟩
  | server _ _ _ _ _ _ ihbody ih => exact ⟨ihbody, ih⟩
  | attempt _ _ ihbody ih => exact ⟨ihbody, ih⟩
  | block _ _ _ _ _ ihbody ih => exact ⟨ihbody, ih⟩
  | component _ _ _ _ ihbefore ihbody ih => exact ⟨ihbefore, ihbody, ih⟩

def within (n k depth : Nat) : Nat := if n = 0 then k + depth else k

@[simp] theorem within_zero (n k : Nat) : within n k 0 = k := by
  simp [within]

theorem within_succ (n k depth : Nat) : within n k (depth + 1) = inside n (within n k depth) := by
  unfold within inside
  split <;> rfl

theorem within_one (n k : Nat) : within n k 1 = inside n k := by
  rw [within_succ, within_zero]

theorem within_within (n k depth more : Nat) :
    within n (within n k depth) more = within n k (more + depth) := by
  unfold within
  split <;> omega

namespace Stable

variable {τ : Type} [RenderTarget τ] {w : Scope τ} {n k : Nat} {J : Nat → Condition τ}
  {L : Nat → Prop}

omit [RenderTarget τ] in
theorem attempt {m : RenderM τ Unit}
    (hm : Triple (w.exits n J (· = k)) (J k) m fun _ => J k) :
    Triple (w.exits n J L) (J k) (RenderM.attempt m) fun _ => J k := by
  have hm : Triple ⟨w.fault, n, J k⟩ (J k) m fun _ => J k :=
    hm.failing (x := ⟨w.fault, n, J k⟩) fun _ _ ⟨_, hk, hp⟩ => hk ▸ hp
  refine (Triple.attempt (x := w.exits n J L) hm).post fun result t g hp => ?_
  cases result <;> exact hp

theorem tidy (h : Stable w n J) (ha : ∀ i : Instruction, i.call? = none → w.step i)
    {M : Nat → Prop} {script : Script} {depth : Nat} (hs : script.Tidy M depth)
    (hM : ∀ d, M d → L (within n k d)) :
    Triple (w.exits n J L) (J (within n k depth)) (script.run τ) fun _ => J k := by
  induction hs generalizing k L with
  | done => exact .pure fun _ _ hp => by simpa using hp
  | @opening M depth _ name key _ ih =>
    have hopen : Triple (w.exits n J L) (J (within n k depth))
        (Instruction.perform (.openElement name key)) fun _ => J (within n k (depth + 1)) := by
      rw [within_succ]
      exact .bind (h.openElement name key) fun _ => .pure fun _ _ hp => hp.1
    exact .bind hopen fun a => .bind (Quiet.answer _ a).triple fun _ => ih hM
  | @closing M depth _ _ ih =>
    have hclose : Triple (w.exits n J L) (J (within n k (depth + 1)))
        (Instruction.perform .closeElement) fun _ => J (within n k depth) := by
      rw [within_succ]
      exact .bind h.closeElement fun _ => .pure fun _ _ hp => hp
    exact .bind hclose fun a => .bind (Quiet.answer _ a).triple fun _ => ih hM
  | @skipping M depth _ _ ih =>
    have hskip : Triple (w.exits n J L) (J (within n k (depth + 1)))
        (Instruction.perform (.maybeSkip true)) fun _ => J (within n k depth) := by
      rw [within_succ]
      exact .bind (h.maybeSkip true) fun _ => .pure fun _ _ hp => hp
    exact .bind hskip fun a => .bind (Quiet.answer _ a).triple fun _ => ih hM
  | @flat M depth _ i hflat hi hfail _ ih =>
    exact .bind (h.perform (ha i hi) hflat fun hi => hM _ (hfail hi)) fun a =>
      .bind (Quiet.answer _ a).triple fun _ => ih hM
  | @server M depth _ _ name key parameters hfail _ _ ihbody ih =>
    have hbody := ihbody (k := within n k depth) (L := L) fun d hd => by
      rw [within_within]
      exact hM _ hd
    rw [within_one] at hbody
    have hk : L (inside n (within n k depth)) := within_succ n k depth ▸ hM _ hfail
    exact .bind (h.serverBlock hk hbody) fun a => .bind (Quiet.answer _ a).triple fun _ => ih hM
  | @attempt M depth body _ _ _ ihbody ih =>
    -- The body of an attempt fails at the level at which it began, and so the attempt does not.
    have hbody := ihbody (k := within n k depth) (L := (· = within n k depth)) fun d hd => by
      rw [hd, within_zero]
    rw [within_zero] at hbody
    have hblock : Triple (w.exits n J L) (J (within n k depth))
        (Block.perform .attempt fun σ _ => body.run σ) fun _ => J (within n k depth) := by
      refine .bind (attempt hbody) fun result => ?_
      cases result <;> exact .pure fun _ _ hp => hp
    exact .bind hblock fun a => .bind (Quiet.answer _ a).triple fun _ => ih hM
  | @block M depth body _ b hattempt hserver hfail htidy _ ihbody ih =>
    have hbody := ihbody (k := within n k depth) (L := L) fun d hd => by
      rw [within_within]
      exact hM _ hd
    rw [within_zero] at hbody
    refine .bind (h.performBlock ha (body.steady htidy.all) (hM _ hfail) hattempt hserver hbody)
      fun a => ?_
    exact .bind (Quiet.answer _ a).triple fun _ => ih hM
  | @component M depth _ _ next spec hroot _ _ _ ihbefore ihbody ih =>
    have hbefore := ihbefore (k := within n k depth) (L := L) fun d hd => by
      rw [within_within]
      exact hM _ hd
    have hbody := ihbody (k := inside n (within n k depth)) (L := L) fun d hd => by
      rw [← within_succ, within_within]
      exact hM _ hd
    rw [within_zero] at hbefore hbody
    have hrest : ∀ report, Triple (w.exits n J L) (J (within n k depth)) (do
        RenderM.answer (.component spec) (some (.component report))
        next.run τ) fun _ => J k := fun report => .bind (Quiet.answer _ _).triple fun _ => ih hM
    refine .bind (h.renderComponent (fun _ hnode => by simp [hroot] at hnode) hbefore hbody)
      fun id => ?_
    cases id with
    | none => exact hrest none
    | some id => exact .bind (h.introduce id) hrest

end Stable

end KeyedRender

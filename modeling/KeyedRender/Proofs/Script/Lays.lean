import KeyedRender.Proofs.Render.Success
import KeyedRender.Proofs.Script.Visits

/-!
# Scripts that lay out elements

A pass may open elements one after the other at the same composite key, and close each of them after
a body that closes what it opens. The openings of a run say which node was opened under each key.
-/
namespace KeyedRender

def Script.seq : Script → Script → Script
  | .done, rest => rest
  | .step i next, rest => .step i (next.seq rest)
  | .block b body next, rest => .block b body (next.seq rest)
  | .component spec before body next, rest => .component spec before body (next.seq rest)

theorem Script.run_seq {τ : Type} [RenderTarget τ] (script rest : Script) :
    (script.seq rest).run τ = (do
      script.run τ
      rest.run τ) := by
  induction script with
  | done => rfl
  | step i next ih => simp only [seq, run, ih, bind_assoc]
  | block b body next _ ih => simp only [seq, run, ih, bind_assoc]
  | component spec before body next _ _ ih =>
    simp only [seq, run, ih, bind_assoc]
    refine congrArg _ (funext fun id => ?_)
    cases id <;> simp only [bind_assoc]

/-- Elements opened at one composite key. Their names depend on the keys that they are opened
with. -/
structure Layout where
  stack : String
  name : String → String

structure Opening where
  key : String
  body : Script
  node : NodeId

/-- What is run from the opening of an element to its end. -/
def Opening.content {τ : Type} [RenderTarget τ] (L : Layout) (o : Opening) : RenderM τ Unit := do
  RenderM.answer (.instruction (.openElement (L.name o.key) o.key)) (some (.node (some o.node)))
  o.body.run τ
  let closed ← RenderM.closeElement
  RenderM.answer (.instruction .closeElement) (some (.node closed))

/-- Runs that only open and close elements of a layout, besides silent steps, from one state to
another one. -/
inductive Script.Lays (L : Layout) (ctx : Context) :
    Script → RenderState KeyedDom → List Opening → RenderState KeyedDom → Prop
  | done {s : RenderState KeyedDom} : Lays L ctx .done s [] s
  | silent {i : Instruction} {next : Script} {s t u : RenderState KeyedDom}
      {openings : List Opening} : i.IsSilent →
      (do RenderM.answer (.instruction i) (← i.perform)) ctx s = .done () t →
      Lays L ctx next t openings u → Lays L ctx (.step i next) s openings u
  | opening {o : Opening} {next : Script} {s t t' u : RenderState KeyedDom}
      {openings : List Opening} : o.body.Tidy (fun _ => True) 0 → s.renderer.currentKey = L.stack →
      RenderM.openElement (L.name o.key) o.key ctx s = .done (some o.node) t →
      o.content L ctx t = .done () t' → Lays L ctx next t' openings u →
      Lays L ctx (.step (.openElement (L.name o.key) o.key) (o.body.seq (.step .closeElement next)))
        s (o :: openings) u

theorem Script.run_of_lays {L : Layout} {ctx : Context} {script : Script}
    {s u : RenderState KeyedDom} {openings : List Opening} (h : script.Lays L ctx s openings u) :
    script.run KeyedDom ctx s = .done () u := by
  induction h with
  | done => rfl
  | silent _ hstep _ ih =>
    obtain ⟨a, t', ha, ht⟩ := RenderM.bind_eq_done.1 hstep
    exact RenderM.bind_eq_done.2 ⟨a, t', ha, RenderM.bind_eq_done.2 ⟨(), _, ht, ih⟩⟩
  | @opening o next s t t' u openings _ _ hopen hcontent _ ih =>
    obtain ⟨_, s₁, hopened, hcontent⟩ := RenderM.bind_eq_done.1 hcontent
    obtain ⟨_, s₂, hbody, hcontent⟩ := RenderM.bind_eq_done.1 hcontent
    obtain ⟨closed, s₃, hclose, hclosed⟩ := RenderM.bind_eq_done.1 hcontent
    have hperform : Instruction.perform (.openElement (L.name o.key) o.key) ctx s =
        .done (some (.node (some o.node))) t :=
      RenderM.bind_eq_done.2 ⟨_, _, hopen, rfl⟩
    have hend : Instruction.perform .closeElement ctx s₂ = .done (some (.node closed)) s₃ :=
      RenderM.bind_eq_done.2 ⟨_, _, hclose, rfl⟩
    simp only [run, run_seq, RenderM.bind_eq_done]
    exact ⟨_, _, hperform, (), _, hopened, (), _, hbody, _, _, hend, (), _, hclosed, ih⟩

end KeyedRender

import KeyedRender.Proofs.Key.Brackets
import KeyedRender.Proofs.Script.Served

/-!
# Bracketed keys

The keys in force on a renderer change with its own steps only, whatever is rendered on layers over
it and wherever that fails. Where each call is restored to the key that it was given, and each
manual scope is left, the keys are those inside the brackets that are open, and in the end those
before.
-/
namespace KeyedRender

open RenderM

def Layer.keys? : Layer → Option Key.Stack
  | .muted keys _ => some keys
  | .probe _ => none

namespace Renderer

variable {τ : Type} (r : Renderer τ)

def keyStacks : List (Option Key.Stack) := r.layers.map Layer.keys? ++ [some r.pass.keys]

theorem length_keyStacks : r.keyStacks.length = r.layers.length + 1 := by simp [keyStacks]

theorem keyStacks_push (layer : Layer) :
    (r.push layer).keyStacks = layer.keys? :: r.keyStacks := rfl

theorem keyStacks_pop (h : r.layers ≠ []) : r.pop.keyStacks = r.keyStacks.tail := by
  obtain ⟨pass, layers⟩ := r
  cases layers with
  | nil => exact absurd rfl h
  | cons layer below => rfl

theorem keyStacks_eq_cons : r.keyStacks = r.keys? :: r.keyStacks.tail := by
  obtain ⟨pass, _ | ⟨_ | _, below⟩⟩ := r <;> rfl

theorem exists_keys? {r : Renderer τ} (h : r.kind ≠ .probe) : ∃ keys, r.keys? = some keys := by
  obtain ⟨pass, _ | ⟨keys | _, below⟩⟩ := r
  · exact ⟨pass.keys, rfl⟩
  · exact ⟨keys, rfl⟩
  · exact absurd rfl h

theorem keyStacks_markRendered : r.markRendered.keyStacks = r.keyStacks := by
  obtain ⟨pass, _ | ⟨_ | _, below⟩⟩ := r <;> rfl

theorem keyStacks_setLogger (logger : Option LoggerId) :
    (r.setLogger logger).keyStacks = r.keyStacks := by
  obtain ⟨pass, _ | ⟨_ | _, below⟩⟩ := r <;> rfl

theorem keyStacks_handBackLogger : r.handBackLogger.keyStacks = r.keyStacks := by
  obtain ⟨pass, _ | ⟨keys | _, below⟩⟩ := r
  · rfl
  · rw [handBackLogger, keyStacks_push, keyStacks_setLogger]
    rfl
  · rfl

theorem keyStacks_enqueue (id : ComponentId) : (r.enqueue id).keyStacks = r.keyStacks := by
  unfold enqueue
  split <;> rfl

theorem keyStacks_changeKeys (change : Key.Stack → Key.Stack) :
    (r.changeKeys change).keyStacks = r.keys?.map change :: r.keyStacks.tail := by
  obtain ⟨pass, _ | ⟨_ | _, below⟩⟩ := r <;> rfl

end Renderer

section

variable {τ : Type}

def Moment.leaves (m : Moment τ) (keys : Key.Stack) : Key.Stack :=
  match m.question with
  | .instruction i => (Keyring.after ⟨keys, m.state.shared.savedKeys⟩ i).keys
  | _ => keys

def KeysAlong : List (Moment τ) → Key.Stack → Key.Stack → Prop
  | [], keys, keys' => keys' = keys
  | m :: rest, keys, keys' =>
    m.state.renderer.keys? = some keys ∧ KeysAlong rest (m.leaves keys) keys'

theorem keysAlong_append {ms ms' : List (Moment τ)} {keys keys'' : Key.Stack} :
    KeysAlong (ms ++ ms') keys keys'' ↔
      ∃ keys', KeysAlong ms keys keys' ∧ KeysAlong ms' keys' keys'' := by
  induction ms generalizing keys with
  | nil => simp [KeysAlong]
  | cons m rest ih => simp only [List.cons_append, KeysAlong, ih, and_assoc, exists_and_left]

/-- The steps of a run that are taken on the layer with a certain number of layers below it. -/
def stepsOn (n : Nat) (ms : List (Moment τ)) : List (Moment τ) :=
  ms.filter fun m => m.state.renderer.layers.length = n

def Bears (n : Nat) (ms : List (Moment τ)) (s t : RenderState τ) : Prop :=
  ∀ above keys below, s.renderer.keyStacks = above ++ some keys :: below → below.length = n →
    ∃ above' keys', above'.length = above.length ∧
      t.renderer.keyStacks = above' ++ some keys' :: below ∧ KeysAlong (stepsOn n ms) keys keys'

namespace Bears

variable {n : Nat} {s t : RenderState τ} {m : Moment τ}

theorem quiet (h : t.renderer.keyStacks = s.renderer.keyStacks) : Bears n [] s t := by
  intro above keys below hs _
  exact ⟨above, keys, rfl, h.trans hs, rfl⟩

theorem isCourse : Course (Bears (τ := τ) n) where
  refl s := quiet rfl
  append {ms ms' s t u} h h' above keys below hs hn := by
    obtain ⟨above', keys', hlength, ht, hms⟩ := h above keys below hs hn
    obtain ⟨above'', keys'', hlength', hu, hms'⟩ := h' above' keys' below ht hn
    refine ⟨above'', keys'', hlength'.trans hlength, hu, ?_⟩
    rw [stepsOn, List.filter_append]
    exact keysAlong_append.2 ⟨keys', hms, hms'⟩

theorem length_above {above below : List (Option Key.Stack)} {keys : Key.Stack}
    (hs : s.renderer.keyStacks = above ++ some keys :: below) (hn : below.length = n) :
    s.renderer.layers.length = n + above.length := by
  have hlength := congrArg List.length hs
  rw [Renderer.length_keyStacks, List.length_append, List.length_cons] at hlength
  omega

theorem keyed {i : Instruction} (ctx : Context) (s : RenderState τ) :
    Bears n [⟨.instruction i, ctx, s⟩] s (s.rekey i) := by
  intro above keys below hs hn
  have hlength := length_above hs hn
  have hstacks := s.renderer.keyStacks_changeKeys fun keys =>
    (Keyring.after ⟨keys, s.shared.savedKeys⟩ i).keys
  have hkeys := s.renderer.keyStacks_eq_cons
  cases above with
  | nil =>
    have hn' : s.renderer.layers.length = n := hlength
    rw [hs, List.nil_append, List.tail_cons, List.cons.injEq] at hkeys
    rw [hs, List.nil_append, List.tail_cons, ← hkeys.1] at hstacks
    refine ⟨[], _, rfl, hstacks, ?_⟩
    rw [stepsOn, List.filter_cons_of_pos (by simpa using hn')]
    exact ⟨hkeys.1.symm, rfl⟩
  | cons first above =>
    have hn' : s.renderer.layers.length ≠ n := by
      rw [hlength, List.length_cons]
      omega
    rw [hs, List.cons_append, List.tail_cons] at hstacks
    refine ⟨(s.rekey i).renderer.keys? :: above, keys, rfl, ?_, ?_⟩
    · rw [Renderer.keyStacks_eq_cons, RenderState.rekey, hstacks]
      rfl
    rw [stepsOn, List.filter_cons_of_neg (by simpa using hn')]
    rfl

theorem still (hm : ∀ keys, m.leaves keys = keys) (h : Bears n [] m.state t) :
    Bears n [m] m.state t := by
  have hstep : Bears n [m] m.state m.state := by
    intro above keys below hs hn
    refine ⟨above, keys, rfl, hs, ?_⟩
    have hlength := length_above hs hn
    have hkeys := m.state.renderer.keyStacks_eq_cons
    unfold stepsOn
    by_cases hm' : m.state.renderer.layers.length = n
    · obtain rfl : above = [] := List.eq_nil_of_length_eq_zero (by omega)
      rw [hs, List.nil_append, List.tail_cons, List.cons.injEq] at hkeys
      rw [List.filter_cons_of_pos (by simpa using hm')]
      exact ⟨hkeys.1.symm, (hm keys).symm⟩
    · rw [List.filter_cons_of_neg (by simpa using hm')]
      rfl
  exact isCourse.append hstep h

theorem leaves_of_isStill (hm : m.question.IsStill) (keys : Key.Stack) : m.leaves keys = keys := by
  obtain ⟨question, ctx, s⟩ := m
  cases question with
  | instruction i => cases i <;> first | rfl | exact hm.elim
  | block b => rfl
  | component spec => rfl

theorem popped {ms : List (Moment τ)} (layer : Layer) (h : Bears n ms (s.push layer) t) :
    Bears n ms s { t with renderer := t.renderer.pop } := by
  intro above keys below hs hn
  have hpushed : (s.push layer).renderer.keyStacks =
      (layer.keys? :: above) ++ some keys :: below := by
    rw [RenderState.push, Renderer.keyStacks_push, hs, List.cons_append]
  obtain ⟨above', keys', hlength, ht, hms⟩ := h _ keys below hpushed hn
  have hlayers := length_above ht hn
  rw [List.length_cons] at hlength
  refine ⟨above'.tail, keys', by rw [List.length_tail, hlength, Nat.add_sub_cancel], ?_, hms⟩
  have hne : t.renderer.layers ≠ [] := fun hnil => by
    rw [hnil, List.length_nil] at hlayers
    omega
  cases above' with
  | nil => cases hlength
  | cons first above' =>
    rw [Renderer.keyStacks_pop _ hne, ht]
    rfl

section

variable [RenderTarget τ] {w : Bool}

omit [RenderTarget τ] in
theorem keyStacks_of_redraws (h : s.Redraws t) : t.renderer.keyStacks = s.renderer.keyStacks := by
  rw [h.renderer]
  rfl

theorem callTarget (call : TargetCall) :
    Traces w (Bears (τ := τ) n) (RenderM.callTarget call) .none := by
  intro ctx s t _ ht
  obtain ⟨answer, hcall⟩ := callTarget_of_endsIn ht
  exact quiet (keyStacks_of_redraws (.callTarget hcall))

omit [RenderTarget τ] in
theorem changeRenderer {change : Renderer τ → Renderer τ}
    (h : ∀ r, (change r).keyStacks = r.keyStacks) :
    Traces w (Bears (τ := τ) n) (RenderM.changeRenderer change) .none := by
  intro ctx s t _ ht
  obtain rfl := Outcome.EndsIn.done_iff.1 ht
  exact quiet (h s.renderer)

omit [RenderTarget τ] in
theorem marked (s : RenderState τ) :
    Bears n [] s { s with renderer := s.renderer.markRendered } :=
  quiet s.renderer.keyStacks_markRendered

theorem called {ctx : Context} {call : TargetCall} {node : Option NodeId} (_ : ctx.watched = w)
    (_ : s.renderer.layers = []) (_ : call.IsInner) (_ : ¬ call.Fills)
    (h : RenderM.callTarget call ctx s = .done node t) : Bears n [] s t :=
  quiet (keyStacks_of_redraws (.callTarget h))

theorem path (n : Nat) (w : Bool) : Path (τ := τ) (fun _ _ => True) w (Bears n) where
  toCourse := isCourse
  still m hm := still (leaves_of_isStill hm) (quiet rfl)
  keyed _ ctx s := keyed ctx s
  aside _ := quiet rfl
  logger s logger := quiet (s.renderer.keyStacks_setLogger logger)
  marked := marked
  popped layer h := popped layer h
  call hw _ _ h := callTarget _ _ _ _ hw (.inl ⟨_, h⟩)
  assigned name value hw _ ht := Traces.setAttribute isCourse marked called name value _ _ _ hw ht
  statics {ctx s t} attributes hw ht :=
    still (m := ⟨.instruction (.applyStatics attributes), ctx, s⟩) (fun _ => rfl)
      (Traces.applyStatics isCourse marked called attributes ctx s t hw ht)
  filled {ctx s t} node markup hw ht :=
    still (m := ⟨.instruction (.setInnerMarkup node markup), ctx, s⟩) (fun _ => rfl)
      (Traces.calling isCourse (fun hw _ h => callTarget _ _ _ _ hw (.inl ⟨_, h⟩)) _ ctx s t hw ht)
  blob {ctx s u t node} _ markup _ hs hopen ht := by
    have hu : u.renderer.layers = [] := (layers_of_callTarget hopen).trans hs
    obtain ⟨-, rfl⟩ | ⟨-, answer, v, hcall, rfl⟩ := writeBlob_of_endsIn hu ht
    · exact quiet rfl
    · have hstacks : v.renderer.keyStacks = u.renderer.keyStacks :=
        keyStacks_of_redraws (.callTarget hcall)
      exact quiet hstacks
  server {ctx s t} name key parameters hw _ ht := by
    have hopened : Bears n [] s t :=
      Traces.openServerElement isCourse (fun call _ => callTarget call)
        (changeRenderer Renderer.keyStacks_markRendered) (fun _ _ => changeRenderer fun _ => rfl)
        name key parameters ctx s t hw ht
    exact still (m := ⟨.block (.openServerElement name key parameters), ctx, s⟩) (fun _ => rfl)
      hopened
  skippedServer {ctx s} name key parameters _ :=
    still (m := ⟨.block (.openServerElement name key parameters), ctx, s⟩) (fun _ => rfl)
      (quiet rfl)
  toDefault {ctx s t} _ ht := by
    refine still (m := ⟨.instruction .toDefault, ctx, s⟩) (fun _ => rfl) (quiet ?_)
    rcases toDefault_of_endsIn ht with rfl | rfl
    · rfl
    · exact s.renderer.keyStacks_handBackLogger
  requeue {ctx s t} index _ ht := by
    refine still (m := ⟨.instruction (.requeue index), ctx, s⟩) (fun _ => rfl) (quiet ?_)
    rcases requeue_of_endsIn ht with ⟨-, rfl⟩ | ⟨id, -, rfl⟩
    · rfl
    · exact s.renderer.keyStacks_enqueue id
  probed {ctx s} spec _ :=
    still (m := ⟨.component spec, ctx, s⟩) (fun _ => rfl) (quiet rfl)
  -- Neither the beginning of a component nor its attachment touches a key.
  component {spec ctx s id u ms v} _ _ hbegin h := by
    have hbegun : Bears n [⟨.component spec, ctx, s⟩] s u :=
      still (m := ⟨.component spec, ctx, s⟩) (fun _ => rfl) (quiet (by
        rw [beginComponent_renderer hbegin]
        exact s.renderer.keyStacks_enqueue id))
    have hcomponent := isCourse.append hbegun h
    refine ⟨hcomponent, fun {root t} ht => ?_⟩
    have hattached : Bears n [] v t := by
      rcases attach_of_endsIn (.inl ⟨_, ht⟩) with rfl | ⟨-, c, -, rfl⟩ <;> exact quiet rfl
    simpa using isCourse.append hcomponent hattached

end

end Bears

/-- The brackets that are open after a step. A call is restored to the key that it was given, and no
bracket is closed but the innermost one. -/
def Moment.brackets? (opened : List Key.Bracket) (m : Moment τ) : Option (List Key.Bracket) :=
  match m.question with
  | .instruction (.pushKey fragment) =>
    some (.call fragment m.state.renderer.currentKey :: opened)
  | .instruction (.pushManualKey fragment) => some (.manual fragment :: opened)
  | .instruction (.popKey restored?) =>
    match opened with
    | .call _ previous :: outer =>
      if restored?.getD (m.state.shared.savedKeys.headD "") = previous then some outer else none
    | _ => none
  | .instruction .popManualKey =>
    match opened with
    | .manual _ :: outer => some outer
    | _ => none
  | _ => some opened

def bracketsAfter? (steps : List (Moment τ)) (opened : List Key.Bracket) :
    Option (List Key.Bracket) := steps.foldlM Moment.brackets? opened

structure KeysInside (keys : Key.Stack) (opened : List Key.Bracket) (keys' : Key.Stack) :
    Prop where
  eq : keys' = keys.within opened
  restores : keys.Restores opened

namespace KeysInside

variable {keys keys' keys'' : Key.Stack} {opened opened' : List Key.Bracket}

theorem popKey {fragment : Key.Fragment} {previous : String}
    (h : KeysInside keys (.call fragment previous :: opened) keys') :
    KeysInside keys opened (keys'.popCall previous) := by
  obtain ⟨rfl, rfl, hrestores⟩ := h
  exact ⟨Key.Stack.popCall_pushCall _ _, hrestores⟩

theorem step {m : Moment τ} (h : KeysInside keys opened keys')
    (hm : m.state.renderer.keys? = some keys') (ho : m.brackets? opened = some opened') :
    KeysInside keys opened' (m.leaves keys') := by
  obtain ⟨question, ctx, s⟩ := m
  cases question with
  | instruction i =>
    cases i with
    | pushKey fragment =>
      cases ho
      have hcurrent : s.renderer.currentKey = keys'.current := by
        rw [Renderer.currentKey, hm]
        rfl
      obtain ⟨rfl, hrestores⟩ := h
      exact ⟨rfl, hcurrent, hrestores⟩
    | pushManualKey fragment =>
      cases ho
      obtain ⟨rfl, hrestores⟩ := h
      exact ⟨rfl, hrestores⟩
    | popKey restored? =>
      rcases opened with _ | ⟨⟨fragment, previous⟩ | _, outer⟩
      · cases ho
      · simp only [Moment.brackets?] at ho
        split at ho
        · next hrestored =>
          cases ho
          have hleaves : Moment.leaves ⟨.instruction (.popKey restored?), ctx, s⟩ keys' =
              keys'.popCall previous := by
            rw [← hrestored]
            cases restored? <;> rfl
          rw [hleaves]
          exact h.popKey
        · cases ho
      · cases ho
    | popManualKey =>
      rcases opened with _ | ⟨_ | fragment, outer⟩
      · cases ho
      · cases ho
      · cases ho
        obtain ⟨rfl, hrestores⟩ := h
        exact ⟨rfl, hrestores⟩
    | _ =>
      cases ho
      exact h
  | block b =>
    cases ho
    exact h
  | component spec =>
    cases ho
    exact h

theorem run {steps : List (Moment τ)} (h : KeysInside keys opened keys')
    (hsteps : KeysAlong steps keys' keys'') (ho : bracketsAfter? steps opened = some opened') :
    KeysInside keys opened' keys'' := by
  induction steps generalizing opened keys' with
  | nil =>
    cases ho
    obtain rfl : keys'' = keys' := hsteps
    exact h
  | cons m rest ih =>
    obtain ⟨hm, hrest⟩ := hsteps
    obtain ⟨middle, hmiddle, ho⟩ := Option.bind_eq_some_iff.1 ho
    exact ih (h.step hm hmiddle) hrest ho

end KeysInside

/-- The steps of a script on the renderer that it is run on. -/
def Script.ownSteps [RenderTarget τ] (script : Script) (ctx : Context) (s : RenderState τ) :
    List (Moment τ) := stepsOn s.renderer.layers.length (script.moments ctx s)

theorem KeysInside.newKey_eq {keys keys' : Key.Stack} {opened : List Key.Bracket}
    {r r' : Renderer τ} (h : KeysInside keys opened keys') (hr : r.keys? = some keys)
    (hr' : r'.keys? = some keys') (fragment : Key.Fragment) :
    r'.newKey fragment = Key.encode fragment ++ Key.Bracket.key opened r.currentKey := by
  obtain ⟨rfl, -⟩ := h
  rw [Renderer.newKey, Renderer.currentKey, hr, hr']
  exact keys.newKey_within opened fragment

section

variable [RenderTarget τ]

/-- However a script ends, the keys of the renderer it was run on have changed with its steps on
that renderer. -/
theorem Script.keysAlong_ownSteps (script : Script) {ctx : Context} {s t : RenderState τ}
    {keys : Key.Stack} (hs : s.renderer.keys? = some keys)
    (ht : (script.run τ ctx s).EndsIn t) :
    ∃ keys', t.renderer.keys? = some keys' ∧ KeysAlong (script.ownSteps ctx s) keys keys' := by
  have hbears : Bears s.renderer.layers.length (script.moments ctx s) s t :=
    script.traces Side.trivial (Bears.path _ ctx.watched) ctx s t rfl ht
  have hstacks := s.renderer.keyStacks_eq_cons
  rw [hs] at hstacks
  have hlength : s.renderer.keyStacks.tail.length = s.renderer.layers.length := by
    rw [List.length_tail, Renderer.length_keyStacks, Nat.add_sub_cancel]
  obtain ⟨above, keys', habove, ht, hsteps⟩ := hbears [] keys _ hstacks hlength
  obtain rfl := List.eq_nil_of_length_eq_zero habove
  rw [Renderer.keyStacks_eq_cons, List.nil_append, List.cons.injEq] at ht
  exact ⟨keys', ht.1, hsteps⟩

/-- A script on a renderer that has keys, whose steps there close the brackets that they close from
the innermost one on. The keys in the end are those inside the brackets left open, so that they are
those before if none is. At every step, a new key is that of its fragment in front of the fragments
of the calls that are open since the innermost manual scope, and of that scope's fragment or the key
before; and elements are opened with such keys. -/
theorem Script.keys_bracketed (script : Script) {ctx : Context} {s t : RenderState τ}
    {opened : List Key.Bracket} (hs : s.renderer.kind ≠ .probe)
    (ht : (script.run τ ctx s).EndsIn t)
    (hopened : bracketsAfter? (script.ownSteps ctx s) [] = some opened) :
    (opened = [] → t.renderer.keys? = s.renderer.keys?) ∧
    (∀ fragment, t.renderer.newKey fragment =
      Key.encode fragment ++ Key.Bracket.key opened s.renderer.currentKey) ∧
    ∀ before m after, script.ownSteps ctx s = before ++ m :: after →
      ∃ around, bracketsAfter? before [] = some around ∧
        (∀ fragment, m.state.renderer.newKey fragment =
          Key.encode fragment ++ Key.Bracket.key around s.renderer.currentKey) ∧
        (s.renderer.kind = .default → ∀ name key,
          RenderM.openElement name key m.context m.state =
            callTarget (.openElement name (Key.encode (.text key) ++
              Key.Bracket.key around s.renderer.currentKey)) m.context m.state) := by
  obtain ⟨keys, hkeys⟩ := Renderer.exists_keys? hs
  obtain ⟨keys', hkeys', hsteps⟩ := script.keysAlong_ownSteps hkeys ht
  have hbegin : KeysInside keys [] keys := ⟨rfl, trivial⟩
  have hend : KeysInside keys opened keys' := hbegin.run hsteps hopened
  refine ⟨?same, hend.newKey_eq hkeys hkeys', ?inside⟩
  case same =>
    rintro rfl
    rw [hkeys, hkeys', hend.eq]
    rfl
  case inside =>
    intro before m after hsplit
    rw [hsplit] at hsteps
    rw [hsplit, bracketsAfter?, List.foldlM_append] at hopened
    obtain ⟨around, haround, -⟩ := Option.bind_eq_some_iff.1 hopened
    obtain ⟨middle, hbefore, hm, -⟩ := keysAlong_append.1 hsteps
    have hinside : KeysInside keys around middle := hbegin.run hbefore haround
    have hnew := hinside.newKey_eq (r := s.renderer) hkeys hm
    refine ⟨around, haround, hnew, fun hdefault name key => ?_⟩
    have hmem : m ∈ script.ownSteps ctx s := hsplit ▸ List.mem_append_cons_self
    have hlayers : m.state.renderer.layers = [] := by
      have hdepth := of_decide_eq_true (List.mem_filter.1 hmem).2
      rw [layers_of_kind_eq_default hdefault] at hdepth
      exact List.eq_nil_of_length_eq_zero hdepth
    rw [← hnew (.text key)]
    exact emit?_of_layers hlayers _

end

/-- A call with a manual scope in it, and a call in that scope that ends before an error; a muted
span leaves a scope of its own open. -/
def nestedBrackets : Script :=
  .step (.pushKey (.text "a")) <|
    .block .muted (.step (.pushManualKey (.text "m")) .done) <|
      .step (.pushManualKey (.text "x")) <|
        .block .attempt (.step (.pushKey (.text "b")) <| .step (.openElement "li" "k") <|
          .step (.popKey none) <| .step .toDefault .done) <|
        .step .popManualKey <| .step (.popKey none) .done

theorem keys_bracketed_nested :
    let ctx := Session.context ⟨"", .null, loggedText, true⟩
    let s := (Session.start KeyedDom.new).initial
    ∃ t, nestedBrackets.run KeyedDom ctx s = .done () t ∧
      t.renderer.keys? = s.renderer.keys? ∧
      ∃ m ∈ nestedBrackets.ownSteps ctx s, RenderM.openElement "li" "k" m.context m.state =
        callTarget (.openElement "li" "1:k1:b1:x") m.context m.state := by
  intro ctx s
  obtain ⟨t, ht⟩ := Outcome.done_of_yields (a := ())
    (show (nestedBrackets.run KeyedDom ctx s).yields () = true by decide +kernel)
  have hopened : bracketsAfter? (nestedBrackets.ownSteps ctx s) [] = some [] := by decide +kernel
  obtain ⟨hsame, -, hinside⟩ := nestedBrackets.keys_bracketed (by decide) (.inl ⟨(), ht⟩) hopened
  have hlength : 5 < (nestedBrackets.ownSteps ctx s).length := by decide +kernel
  have hsplit : nestedBrackets.ownSteps ctx s = (nestedBrackets.ownSteps ctx s).take 5 ++
      (nestedBrackets.ownSteps ctx s)[5] :: (nestedBrackets.ownSteps ctx s).drop 6 := by
    rw [← List.drop_eq_getElem_cons hlength, List.take_append_drop]
  have hbefore : bracketsAfter? ((nestedBrackets.ownSteps ctx s).take 5) [] =
      some [.call (.text "b") "1:x", .manual (.text "x"), .call (.text "a") ""] := by decide +kernel
  obtain ⟨around, haround, -, hopen⟩ := hinside _ _ _ hsplit
  cases haround.symm.trans hbefore
  exact ⟨t, ht, hsame rfl, _, List.getElem_mem hlength, hopen rfl "li" "k"⟩

end

end KeyedRender

import Callables.Proofs.BondedAttributes
import Callables.Proofs.Evaluation

namespace Callables

namespace Relocation

variable {ρ : Relocation}

section Frame

variable {rt rt' : Runtime} (frame : Frame)

theorem frame_argument? (index : Nat) :
    (ρ.frame frame).argument? index = (frame.argument? index).map ρ.value := by
  simp [Frame.argument?, Relocation.frame]

theorem frame_parameter? (name : String) :
    (ρ.frame frame).parameter? name = (frame.parameter? name).map ρ.value := by
  have slot : (ρ.frame frame).code.parameters.slotOf? name =
      frame.code.parameters.slotOf? name := rfl
  unfold Frame.parameter?
  rw [slot]
  cases frame.code.parameters.slotOf? name with
  | none => rfl
  | some index => exact frame_argument? frame index

theorem frame_held : (ρ.frame frame).held = frame.held.map ρ.value := by
  obtain ⟨_, _, _, positional, keywords⟩ := frame
  cases positional <;> cases keywords <;> simp [Frame.held, Relocation.frame]

theorem Relocated.frame_metadata? (h : ρ.Relocated rt rt') :
    (ρ.frame frame).metadata? rt' = (frame.metadata? rt).map ρ.metadata :=
  h.metadata? frame.function

theorem Relocated.frame_globals? (h : ρ.Relocated rt rt') :
    (ρ.frame frame).globals? rt' = (frame.globals? rt).map ρ.value := by
  unfold Frame.globals?
  rw [h.frame_metadata?]
  cases frame.metadata? rt <;> rfl

theorem Relocated.frame_global? (h : ρ.Relocated rt rt') (name : String) :
    (ρ.frame frame).global? rt' name = (frame.global? rt name).map ρ.value := by
  unfold Frame.global?
  rw [h.frame_globals?]
  cases frame.globals? rt with
  | none => rfl
  | some globals =>
    simp only [Option.map_some, Option.bind_some, h.dict?]
    cases rt.heap.dict? globals <;> simp

theorem Relocated.frame_cell? (h : ρ.Relocated rt rt') (index : Nat) :
    (ρ.frame frame).cell? rt' index = (frame.cell? rt index).map ρ.value := by
  unfold Frame.cell?
  rw [h.frame_metadata?]
  cases frame.metadata? rt with
  | none => rfl
  | some m =>
    have items : rt'.heap.itemsAt (ρ.metadata m).closure =
        (rt.heap.itemsAt m.closure).map ρ.value := h.itemsAt m.closure
    simp [items]

end Frame

end Relocation

namespace Bond

open Activity

variable {ρ : Relocation} {bond : Bond ρ} {p q : Runtime × Runtime} {c c' : Callee}

/-- Two ways of calling that go the same way, on everything that is known. -/
def Calls (bond : Bond ρ) (c c' : Callee) : Prop :=
  ∀ p, bond.Holds p → ∀ callee args keywords, bond.Knows p callee → bond.KnowsAll p args →
    bond.KnowsAll p keywords.values →
    bond.Joins ρ.value bond.Knows p (c callee args keywords)
      (c' (ρ.value callee) (args.map ρ.value) (ρ.keywords keywords))

theorem joins_getD (h : bond.Holds p) {v : Option Value}
    (known : ∀ u, v = some u → bond.Knows p u) :
    bond.Joins ρ.value bond.Knows p (pure (v.getD .none)) (pure ((v.map ρ.value).getD .none)) := by
  rw [← ρ.value_getD]
  exact joins_pure h fun mind => Runtime.knows_getD fun u hu => known u hu mind

theorem joins_orElse (h : bond.Holds p) {value value' : Option Value}
    (same : value' = value.map ρ.value) (known : ∀ v, value = some v → bond.Knows p v)
    (e : CallError) :
    bond.Joins ρ.value bond.Knows p (orElse value (throw e)) (orElse value' (throw e)) := by
  subst same
  cases value with
  | none => exact joins_throw h e
  | some v => exact joins_pure h (known v rfl)

theorem joins_depth (h : bond.Holds p) : bond.Joins ρ.value bond.Knows p depth depth := by
  apply Joins.get
  rw [(bond.relocated h).thread]
  exact joins_pure (v := Value.int _) h fun _ => trivial

theorem joins_add (h : bond.Holds p) (a b : Value) :
    bond.Joins ρ.value bond.Knows p (add a b) (add (ρ.value a) (ρ.value b)) := by
  unfold add
  rw [ρ.value_asInt?, ρ.value_asInt?]
  split
  · exact joins_pure (v := Value.int _) h fun _ => trivial
  · exact joins_throw h _

theorem joins_callMethodWith (hc : bond.Calls c c') (h : bond.Holds p) {receiver : Value}
    (name : String) {args : List Value} {keywords : Keywords} (hr : bond.Knows p receiver)
    (ha : bond.KnowsAll p args) (hk : bond.KnowsAll p keywords.values) :
    bond.Joins ρ.value bond.Knows p (callMethodWith c receiver name args keywords)
      (callMethodWith c' (ρ.value receiver) name (args.map ρ.value) (ρ.keywords keywords)) := by
  apply Joins.get
  rw [(bond.relocated h).unboundMethod?]
  cases found : p.1.unboundMethod? receiver name with
  | some method =>
    refine Joins.holding h [method] fun q later => ?_
    have known : bond.Knows p method := fun mind => (bond.sound mind h).knows_unboundMethod found
    exact hc q later.holds method (receiver :: args) keywords (later.knows known)
      (later.knowsAll (knowsAll_cons.mpr ⟨hr, ha⟩)) (later.knowsAll hk)
  | none =>
    apply (joins_getAttribute h hr name).bind
    intro attr q later known
    refine Joins.holding later.holds [attr] fun q' later' => ?_
    have all := later.trans later'
    exact hc q' later'.holds attr args keywords (later'.knows known) (all.knowsAll ha)
      (all.knowsAll hk)

/-- The arguments of a call are evaluated and held, first those by position. -/
theorem joins_passing {args args' : Activity (List Value)} {keywords keywords' : Activity Keywords}
    {pass pass' : List Value → Keywords → Activity Value}
    (ha : bond.Joins (List.map ρ.value) bond.KnowsAll p args args')
    (hk : ∀ q, bond.Later p q →
      bond.Joins ρ.keywords (fun q keywords => bond.KnowsAll q keywords.values) q keywords
        keywords')
    (hp : ∀ q args keywords, bond.Later p q → bond.KnowsAll q args →
      bond.KnowsAll q (Keywords.values keywords) →
      bond.Joins ρ.value bond.Knows q (pass args keywords)
        (pass' (args.map ρ.value) (ρ.keywords keywords))) :
    bond.Joins ρ.value bond.Knows p
      (do
        let args ← args
        releasing args do
          let keywords ← keywords
          releasing keywords.values (pass args keywords))
      (do
        let args ← args'
        releasing args do
          let keywords ← keywords'
          releasing keywords.values (pass' args keywords)) := by
  apply ha.bind
  intro args q later known
  refine Joins.releasing ?_ args
  apply (hk q later).bind
  intro keywords q' later' known'
  rw [ρ.keywords_values]
  exact (hp q' args keywords (later.trans later') (later'.knowsAll known) known').releasing _

structure Sees (bond : Bond ρ) (p : Runtime × Runtime) (frame : Frame) : Prop where
  holds : bond.Holds p
  known : bond.minds → frame.Known p.1

theorem Sees.later {frame : Frame} (s : bond.Sees p frame) (later : bond.Later p q) :
    bond.Sees q frame :=
  ⟨later.holds, fun mind => (s.known mind).grow (bond.grows mind later.leads)⟩

section Evaluate

variable {frame : Frame}

mutual

theorem joins_evaluate {p : Runtime × Runtime} (hc : bond.Calls c c') (s : bond.Sees p frame) :
    (e : Expr Text Value) → bond.KnowsAll p e.constants →
      bond.Joins ρ.value bond.Knows p (evaluate c frame e)
        (evaluate c' (ρ.frame frame) (ρ.expr e))
  | .constant value, h => by
    simp only [Relocation.expr, evaluate]
    exact joins_pure s.holds fun mind => h mind value (by simp [Expr.constants])
  | .parameter name, _ => by
    simp only [Relocation.expr, evaluate]
    exact joins_orElse s.holds (Relocation.frame_parameter? frame name)
      (fun v hv mind => (s.known mind).parameter hv) _
  | .argument index, _ => by
    simp only [Relocation.expr, evaluate]
    exact joins_orElse s.holds (Relocation.frame_argument? frame index)
      (fun v hv mind => (s.known mind).argument hv) _
  | .cell index, _ => by
    simp only [Relocation.expr, evaluate]
    exact Joins.get (joins_orElse s.holds ((bond.relocated s.holds).frame_cell? frame index)
      (fun v hv mind => Frame.knows_cell (bond.sound mind s.holds) hv) _)
  | .global name, _ => by
    simp only [Relocation.expr, evaluate]
    exact Joins.get (joins_orElse s.holds ((bond.relocated s.holds).frame_global? frame name)
      (fun v hv mind => Frame.knows_global (bond.sound mind s.holds) hv) _)
  | .parameters, _ => by
    simp only [Relocation.expr, evaluate]
    exact joins_tuple s.holds _ fun mind => (s.known mind).parameters
  | .collectedPositional, _ => by
    simp only [Relocation.expr, evaluate]
    exact joins_getD s.holds fun v hv mind => (s.known mind).positional v hv
  | .collectedKeywords, _ => by
    simp only [Relocation.expr, evaluate]
    exact joins_getD s.holds fun v hv mind => (s.known mind).keywords v hv
  | .globals, _ => by
    simp only [Relocation.expr, evaluate]
    apply Joins.get
    rw [(bond.relocated s.holds).frame_globals?]
    exact joins_getD s.holds fun v hv mind =>
      Frame.knows_globals (bond.sound mind s.holds) hv
  | .function, _ => by
    simp only [Relocation.expr, evaluate]
    exact joins_pure s.holds fun mind => (s.known mind).function
  | .codeName, _ => by
    simp only [Relocation.expr, evaluate]
    exact joins_pure (v := Value.text _) s.holds fun _ => trivial
  | .depth, _ => by
    simp only [Relocation.expr, evaluate]
    exact joins_depth s.holds
  | .tuple items, h => by
    simp only [Relocation.expr, evaluate]
    apply (joins_evaluateAll hc s [] (bond.knowsAll_nil p) items h).bind
    intro items q later known
    exact (joins_tuple later.holds _ known).releasing items
  | .sequence steps, h => by
    simp only [Relocation.expr, evaluate]
    exact joins_evaluateSteps hc s .none (fun _ => trivial) steps h
  | .call callee args keywords, h => by
    simp only [Expr.constants, knowsAll_append] at h
    simp only [Relocation.expr, evaluate]
    apply (joins_evaluate hc s callee h.1.1).bind
    intro callee q₁ later₁ known
    refine Joins.holding later₁.holds [callee] fun q₂ later₂ => ?_
    have later := later₁.trans later₂
    refine joins_passing (joins_evaluateAll hc (s.later later) [] (bond.knowsAll_nil q₂) args
      (later.knowsAll h.1.2)) (fun q₃ later₃ => ?_) fun q₃ args keywords later₃ ha hk => ?_
    · have later := later.trans later₃
      exact joins_evaluateNamed hc (s.later later) [] (bond.knowsAll_nil q₃) keywords
        (later.knowsAll h.2)
    · exact hc q₃ later₃.holds callee args keywords ((later₂.trans later₃).knows known) ha hk
  | .callMethod receiver name args keywords, h => by
    simp only [Expr.constants, knowsAll_append] at h
    simp only [Relocation.expr, evaluate]
    apply (joins_evaluate hc s receiver h.1.1).bind
    intro receiver q₁ later₁ known
    refine Joins.holding later₁.holds [receiver] fun q₂ later₂ => ?_
    have later := later₁.trans later₂
    refine joins_passing (joins_evaluateAll hc (s.later later) [] (bond.knowsAll_nil q₂) args
      (later.knowsAll h.1.2)) (fun q₃ later₃ => ?_) fun q₃ args keywords later₃ ha hk => ?_
    · have later := later.trans later₃
      exact joins_evaluateNamed hc (s.later later) [] (bond.knowsAll_nil q₃) keywords
        (later.knowsAll h.2)
    · exact joins_callMethodWith hc later₃.holds name ((later₂.trans later₃).knows known) ha hk
  | .getAttribute target name, h => by
    simp only [Relocation.expr, evaluate]
    apply (joins_evaluate hc s target h).bind
    intro target q later known
    exact Joins.holding later.holds [target] fun q' later' =>
      joins_getAttribute later'.holds (later'.knows known) name
  | .setAttribute target name value, h => by
    simp only [Expr.constants, knowsAll_append] at h
    simp only [Relocation.expr, evaluate]
    apply (joins_evaluate hc s target h.1).bind
    intro target q₁ later₁ _
    refine Joins.holding later₁.holds [target] fun q₂ later₂ => ?_
    have later := later₁.trans later₂
    apply (joins_evaluate hc (s.later later) value (later.knowsAll h.2)).bind
    intro value q₃ later₃ known
    refine Joins.holding later₃.holds [value] fun q₄ later₄ => ?_
    exact (joins_setAttribute later₄.holds target name (later₄.knows known)).bind
      fun _ _ later _ => joins_pure (v := Value.none) later.holds fun _ => trivial
  | .raise kind message, _ => by
    simp only [Relocation.expr, evaluate]
    exact joins_throw s.holds _
  | .attempt body, h => by
    simp only [Relocation.expr, evaluate]
    exact (joins_evaluate hc s body h).outcome
  | .add left right, h => by
    simp only [Expr.constants, knowsAll_append] at h
    simp only [Relocation.expr, evaluate]
    apply (joins_evaluate hc s left h.1).bind
    intro left q₁ later₁ _
    refine Joins.holding later₁.holds [left] fun q₂ later₂ => ?_
    have later := later₁.trans later₂
    apply (joins_evaluate hc (s.later later) right (later.knowsAll h.2)).bind
    intro right q₃ later₃ _
    exact Joins.holding later₃.holds [right] fun q₄ later₄ => joins_add later₄.holds left right
  | .ifPositive condition yes no, h => by
    simp only [Expr.constants, knowsAll_append] at h
    simp only [Relocation.expr, evaluate]
    apply (joins_evaluate hc s condition h.1.1).bind
    intro condition q₁ later₁ _
    apply (joins_take later₁.holds [condition]).bind
    intro _ q₂ later₂ _
    apply (joins_letGo later₂.holds [condition]).bind
    intro _ q₃ later₃ _
    have later := (later₁.trans later₂).trans later₃
    rw [ρ.value_asInt?]
    split
    · exact joins_evaluate hc (s.later later) yes (later.knowsAll h.1.2)
    · exact joins_evaluate hc (s.later later) no (later.knowsAll h.2)

theorem joins_evaluateAll {p : Runtime × Runtime} (hc : bond.Calls c c') (s : bond.Sees p frame)
    (values : List Value) (hv : bond.KnowsAll p values) :
    (es : List (Expr Text Value)) → bond.KnowsAll p (Expr.constantsAll es) →
      bond.Joins (List.map ρ.value) bond.KnowsAll p (evaluateAll c frame values es)
        (evaluateAll c' (ρ.frame frame) (values.map ρ.value) (ρ.exprs es))
  | [], _ => by
    simp only [Relocation.exprs, evaluateAll]
    exact joins_pure s.holds hv
  | e :: rest, h => by
    simp only [Expr.constantsAll, knowsAll_append] at h
    simp only [Relocation.exprs, evaluateAll]
    apply ((joins_evaluate hc s e h.1).orLetGo values).bind
    intro value q₁ later₁ known
    apply (joins_take later₁.holds [value]).bind
    intro _ q₂ later₂ _
    have later := later₁.trans later₂
    have all : bond.KnowsAll q₂ (values ++ [value]) := knowsAll_append.mpr
      ⟨later.knowsAll hv, knowsAll_cons.mpr ⟨later₂.knows known, bond.knowsAll_nil q₂⟩⟩
    have ran := joins_evaluateAll hc (s.later later) (values ++ [value]) all rest
      (later.knowsAll h.2)
    rw [List.map_append] at ran
    exact ran

theorem joins_evaluateNamed {p : Runtime × Runtime} (hc : bond.Calls c c') (s : bond.Sees p frame)
    (keywords : Keywords) (hk : bond.KnowsAll p keywords.values) :
    (es : List (Text × Expr Text Value)) → bond.KnowsAll p (Expr.constantsNamed es) →
      bond.Joins ρ.keywords (fun q keywords => bond.KnowsAll q keywords.values) p
        (evaluateNamed c frame keywords es)
        (evaluateNamed c' (ρ.frame frame) (ρ.keywords keywords) (ρ.namedExprs es))
  | [], _ => by
    simp only [Relocation.namedExprs, evaluateNamed]
    exact joins_pure s.holds hk
  | (name, e) :: rest, h => by
    simp only [Expr.constantsNamed, knowsAll_append] at h
    simp only [Relocation.namedExprs, evaluateNamed]
    rw [ρ.keywords_values]
    apply ((joins_evaluate hc s e h.1).orLetGo keywords.values).bind
    intro value q₁ later₁ known
    apply (joins_take later₁.holds [value]).bind
    intro _ q₂ later₂ _
    have later := later₁.trans later₂
    have all : bond.KnowsAll q₂ (Keywords.values (keywords ++ [(name, value)])) := by
      rw [Keywords.values, List.map_append]
      exact knowsAll_append.mpr
        ⟨later.knowsAll hk, knowsAll_cons.mpr ⟨later₂.knows known, bond.knowsAll_nil q₂⟩⟩
    have ran := joins_evaluateNamed hc (s.later later) (keywords ++ [(name, value)]) all rest
      (later.knowsAll h.2)
    rw [Relocation.keywords, List.map_append] at ran
    exact ran

theorem joins_evaluateSteps {p : Runtime × Runtime} (hc : bond.Calls c c') (s : bond.Sees p frame)
    (last : Value) (hl : bond.Knows p last) :
    (es : List (Expr Text Value)) → bond.KnowsAll p (Expr.constantsAll es) →
      bond.Joins ρ.value bond.Knows p (evaluateSteps c frame last es)
        (evaluateSteps c' (ρ.frame frame) (ρ.value last) (ρ.exprs es))
  | [], _ => by
    simp only [Relocation.exprs, evaluateSteps]
    exact (joins_pure s.holds hl).releasing [last]
  | e :: rest, h => by
    simp only [Expr.constantsAll, knowsAll_append] at h
    simp only [Relocation.exprs, evaluateSteps]
    apply ((joins_evaluate hc s e h.1).orLetGo [last]).bind
    intro value q₁ later₁ known
    apply (joins_take later₁.holds [value]).bind
    intro _ q₂ later₂ _
    apply (joins_letGo later₂.holds [last]).bind
    intro _ q₃ later₃ _
    have later := (later₁.trans later₂).trans later₃
    exact joins_evaluateSteps hc (s.later later) value ((later₂.trans later₃).knows known) rest
      (later.knowsAll h.2)

end

end Evaluate

end Bond
end Callables

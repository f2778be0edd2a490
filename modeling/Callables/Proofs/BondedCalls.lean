import Callables.Proofs.BondedEvaluation
import Callables.Proofs.Delivery

namespace Callables

namespace Activity

abbrev Dispatcher := Value → Function → List Value → Keywords → Activity Value

def callDirectlyWith (call : Callee) : Callee := fun callee args keywords => do
  let rt ← get
  match rt.heap.object? callee with
  | some (.closure _) => call callee args keywords
  | _ => throw (.notCallable (rt.typeName callee))

end Activity

namespace Bond

open Activity

variable {ρ : Relocation} {bond : Bond ρ} {p q : Runtime × Runtime} {c c' : Callee}

theorem joins_boom (h : bond.Holds p) : bond.Joins ρ.value bond.Knows p boom boom :=
  joins_throw h _

theorem joins_entries (h : bond.Holds p) {entries : Option (Dict Value)}
    (known : ∀ d, entries = some d → bond.KnowsAll p d.values) :
    bond.Joins (Option.map ρ.value) (fun q made => ∀ v, made = some v → bond.Knows q v) p
      (entries.mapM fun d => allocate (.dict d))
      ((entries.map (Dict.map ρ.value)).mapM fun d => allocate (.dict d)) :=
  joins_mapM_option h fun d hd => joins_dict h (known d hd)

theorem joins_applyFirst (hc : bond.Calls c c') (h : bond.Holds p) {args : List Value}
    {keywords : Keywords} (ha : bond.KnowsAll p args) (hk : bond.KnowsAll p keywords.values) :
    bond.Joins ρ.value bond.Knows p (applyFirst c args keywords)
      (applyFirst c' (args.map ρ.value) (ρ.keywords keywords)) := by
  cases args with
  | nil => exact joins_throw h _
  | cons callee rest =>
    obtain ⟨known, rest'⟩ := knowsAll_cons.mp ha
    exact hc p h callee rest keywords known rest' hk

/-- Two dispatchers that go the same way, on functions that are known with all they are given. -/
def Dispatches (bond : Bond ρ) (d d' : Dispatcher) : Prop :=
  ∀ p, bond.Holds p → ∀ callable f args keywords, p.1.baseFunction? callable = some f →
    bond.Knows p callable → bond.KnowsAll p args → bond.KnowsAll p keywords.values →
    bond.Joins ρ.value bond.Knows p (d callable f args keywords)
      (d' (ρ.value callable) (ρ.function f) (args.map ρ.value) (ρ.keywords keywords))

section CallWith

variable {d d' : Dispatcher}

/-- The step of `callWith`: the rest of a chain of closures goes the same way. -/
theorem joins_callWith_step (hd : bond.Dispatches d d') (h : bond.Holds p) {callee : Value}
    {args : List Value} {keywords : Keywords} (hc : bond.Knows p callee)
    (ha : bond.KnowsAll p args) (hk : bond.KnowsAll p keywords.values)
    (rest : ∀ next tail, args = next :: tail →
      bond.Joins ρ.value bond.Knows p (callWith d tail next keywords)
        (callWith d' (tail.map ρ.value) (ρ.value next) (ρ.keywords keywords))) :
    bond.Joins ρ.value bond.Knows p (callWith d args callee keywords)
      (callWith d' (args.map ρ.value) (ρ.value callee) (ρ.keywords keywords)) := by
  have relocated := bond.relocated h
  rw [callWith.eq_def, callWith.eq_def]
  apply Joins.get
  rw [relocated.baseFunction?, relocated.object?, relocated.typeName]
  cases hf : p.1.baseFunction? callee with
  | some f => exact hd p h callee f args keywords hf hc ha hk
  | none =>
    dsimp only [Option.map_none]
    cases p.1.heap.object? callee with
    | none => exact joins_throw h _
    | some o =>
      cases o with
      | closure closure =>
        dsimp only [Option.map_some, Relocation.object]
        cases closure.body with
        | collect =>
          apply (joins_tuple h _ ha).bind
          intro values q₁ later₁ hvalues
          have pairs : bond.Joins (List.map ρ.value) bond.KnowsAll q₁
              (keywords.mapM fun k => tuple [.text k.1, k.2])
              ((ρ.keywords keywords).mapM fun k => tuple [.text k.1, k.2]) := by
            refine joins_mapM later₁.holds fun q later k hm => ?_
            refine joins_tuple later.holds [.text k.1, k.2] fun mind => ?_
            have known := (later₁.trans later).knows fun mind =>
              hk mind k.2 (List.mem_map_of_mem hm)
            simp [known mind]
          apply pairs.bind
          intro pairs q₂ later₂ hpairs
          apply (joins_tuple later₂.holds _ hpairs).bind
          intro pairs q₃ later₃ hpair
          refine joins_tuple later₃.holds [values, pairs] fun mind => ?_
          simp [(later₂.trans later₃).knows hvalues mind, hpair mind]
        | fail => exact joins_boom h
        | depth => exact joins_depth h
        | apply =>
          cases args with
          | nil => exact joins_throw h _
          | cons next tail => exact rest next tail rfl
      | tuple | dict | module | code | ofClass | function => exact joins_throw h _

theorem joins_callWith (hd : bond.Dispatches d d') (h : bond.Holds p) {callee : Value}
    {args : List Value} {keywords : Keywords} (hc : bond.Knows p callee)
    (ha : bond.KnowsAll p args) (hk : bond.KnowsAll p keywords.values) :
    bond.Joins ρ.value bond.Knows p (callWith d args callee keywords)
      (callWith d' (args.map ρ.value) (ρ.value callee) (ρ.keywords keywords)) := by
  induction args generalizing callee with
  | nil =>
    refine joins_callWith_step hd h hc ha hk ?_
    rintro _ _ ⟨⟩
  | cons next tail ih =>
    obtain ⟨known, rest⟩ := knowsAll_cons.mp ha
    refine joins_callWith_step hd h hc ha hk ?_
    rintro _ _ ⟨⟩
    exact ih known rest

/-- Dispatchers that go the same way make ways of calling that do. -/
theorem Dispatches.calls (hd : bond.Dispatches d d') :
    bond.Calls (fun callee args keywords => callWith d args callee keywords)
      fun callee args keywords => callWith d' args callee keywords :=
  fun _ h _ _ _ hc ha hk => joins_callWith hd h hc ha hk

end CallWith

theorem Calls.directly (hc : bond.Calls c c') :
    bond.Calls (callDirectlyWith c) (callDirectlyWith c') := by
  intro p h callee args keywords known ha hk
  apply Joins.get
  rw [(bond.relocated h).object?, (bond.relocated h).typeName]
  cases p.1.heap.object? callee with
  | none => exact joins_throw h _
  | some o =>
    cases o with
    | closure c => exact hc p h callee args keywords known ha hk
    | tuple | dict | module | code | ofClass | function => exact joins_throw h _

theorem Calls.joins {bond : Bond .stay} (hc : bond.Calls c c') (h : bond.Holds p) {callee : Value}
    {args : List Value} {keywords : Keywords} (known : bond.Knows p callee)
    (ha : bond.KnowsAll p args) (hk : bond.KnowsAll p keywords.values) :
    bond.Joins Relocation.stay.value bond.Knows p (c callee args keywords)
      (c' callee args keywords) := by
  have joins := hc p h callee args keywords known ha hk
  rwa [Relocation.stay_value, Relocation.stay_values, Relocation.stay_keywords] at joins

theorem Calls.joins_method {bond : Bond .stay} (hc : bond.Calls c c') (h : bond.Holds p)
    {receiver : Value} (name : String) {args : List Value} {keywords : Keywords}
    (known : bond.Knows p receiver) (ha : bond.KnowsAll p args)
    (hk : bond.KnowsAll p keywords.values) :
    bond.Joins Relocation.stay.value bond.Knows p (callMethodWith c receiver name args keywords)
      (callMethodWith c' receiver name args keywords) := by
  have joins := joins_callMethodWith hc h name known ha hk
  rwa [Relocation.stay_value, Relocation.stay_values, Relocation.stay_keywords] at joins

end Bond

def Runtime.telling (rt : Runtime) (kind : EventKind) (name : String) : Runtime :=
  { rt with thread := rt.thread.emit ⟨kind, name⟩ }

/-- A bond that also keeps what is reported around the body of a host-language function. -/
structure CallBond (ρ : Relocation) extends Bond ρ where
  opened : ∀ {p} (name), Holds p → Holds (p.1.telling .call name, p.2.telling .call name)
  closed : ∀ {p q} (name), Holds p →
    Leads (p.1.telling .call name, p.2.telling .call name) q → Holds q →
    Holds (q.1.telling .ret name, q.2.telling .ret name) ∧
      Leads p (q.1.telling .ret name, q.2.telling .ret name)

namespace CallBond

open Activity Bond

variable {ρ : Relocation} {bond : CallBond ρ} {p q : Runtime × Runtime} {c c' : Callee}

/-- The body of a host-language function between what is reported of it. -/
theorem joins_hosted {a b : Activity Value} (h : bond.Holds p) (name : String)
    (hb : ∀ q, bond.Holds q → (∀ v, bond.Knows p v → bond.Knows q v) →
      bond.Joins ρ.value bond.Knows q a b) :
    bond.Joins ρ.value bond.Knows p (reported .call (fun _ => .ret) name a)
      (reported .call (fun _ => .ret) name b) := by
  obtain ⟨result, later, value⟩ :=
    hb (p.1.telling .call name, p.2.telling .call name) (bond.opened name h) fun _ known => known
  have run (body : Activity Value) (rt : Runtime) :
      (reported .call (fun _ => .ret) name body).run rt =
        ((body.run (rt.telling .call name)).1,
          (body.run (rt.telling .call name)).2.telling .ret name) := by
    change (ofExcept (body.run (rt.telling .call name)).1).run
      ((body.run (rt.telling .call name)).2.telling .ret name) = _
    cases (body.run (rt.telling .call name)).1 <;> rfl
  obtain ⟨holds, leads⟩ := bond.closed name h later.leads later.holds
  refine ⟨?_, ?_, fun v ended => ?_⟩
  · rw [run, run]
    exact result
  · rw [run, run]
    exact ⟨holds, leads⟩
  · rw [run] at ended ⊢
    exact value v ended

theorem joins_runHost (hc : bond.Calls c c') (h : bond.Holds p) {lead : Value} {view : ArgsView}
    (hl : bond.Knows p lead) (hv : bond.KnowsAll p view.values) :
    bond.Joins ρ.value bond.Knows p (runHost c lead view)
      (runHost c' (ρ.value lead) (ρ.view view)) := by
  apply Joins.get
  rw [(bond.relocated h).hostCall]
  cases called : p.1.hostCall lead view with
  | error e => exact joins_throw h e
  | ok host =>
    have known : bond.minds → host.Known p.1 := fun mind =>
      (bond.sound mind h).knows_hostCall (hl mind) (hv mind) called
    have items := joins_mapM_option (x := host.bound.positional) (m := List.map ρ.value) h
      fun items hi => joins_tuple h _ fun mind => (known mind).positional items hi
    apply items.bind
    intro positional q₁ later₁ hpositional
    apply (joins_entries later₁.holds fun d hd => later₁.knowsAll fun mind =>
      (known mind).keywords d hd).bind
    intro keywords q₂ later₂ hkeywords
    let frame : Frame :=
      ⟨host.function, host.code, host.bound.parameters, positional, keywords⟩
    have held : (ρ.frame frame).held ++ (ρ.hostCall host).snapshot =
        (frame.held ++ host.snapshot).map ρ.value := by
      rw [List.map_append, Relocation.frame_held]
      rfl
    have body := Joins.holding later₂.holds (frame.held ++ host.snapshot) fun q₃ later₃ =>
      joins_hosted later₃.holds host.name fun q₄ holds kept => by
        have later := later₁.trans (later₂.trans later₃)
        have old : bond.minds → ∀ v, p.1.Knows v → q₄.1.Knows v := fun mind v hv =>
          kept v (later.knows fun _ => hv) mind
        have sees : bond.Sees q₄ frame := ⟨holds, fun mind =>
          ⟨old mind _ (known mind).function, fun v hv => old mind v ((known mind).parameters v hv),
            fun v hv => kept v ((later₂.trans later₃).knows (hpositional v hv)) mind,
            fun v hv => kept v (later₃.knows (hkeywords v hv)) mind⟩⟩
        exact joins_evaluate hc sees host.code.body fun mind v hv =>
          old mind v ((known mind).constants v hv)
    rw [← held] at body
    exact body

theorem joins_runBound (hc : bond.Calls c c') (h : bond.Holds p) (lead : Value) {view : ArgsView}
    (hv : bond.KnowsAll p view.values) :
    bond.Joins ρ.value bond.Knows p (runBound c lead view)
      (runBound c' (ρ.value lead) (ρ.view view)) := by
  apply Joins.get
  rw [(bond.relocated h).function?]
  cases found : p.1.heap.function? lead with
  | none => exact joins_throw h _
  | some w =>
    simp only [Option.map_some, Option.bind_some, Relocation.function_wrapped?,
      Relocation.function_receiver, Relocation.view_positional, Relocation.view_keywords]
    cases hw : w.wrapped? with
    | none => exact joins_throw h _
    | some wrapped =>
      cases hr : w.receiver with
      | none => exact joins_throw h _
      | some receiver =>
        exact hc p h wrapped (receiver :: view.positional) view.keywords
          (fun mind => (bond.sound mind h).knows_wrapped found hw)
          (knowsAll_cons.mpr ⟨fun mind => (bond.sound mind h).knows_receiver found hr,
            fun mind => ArgsView.knows_positional (hv mind)⟩)
          fun mind => ArgsView.knows_keywords (hv mind)

section Natives

variable {lead : Value} {args : List Value}

theorem joins_packKeywords (h : bond.Holds p) {keywords : Option (Dict Value)}
    (hd : bond.KnowsAll p (Delivery.varArgsKeywords lead args keywords).values) :
    bond.Joins ρ.value bond.Knows p
      (runNative c .packKeywords (.varArgsKeywords lead args keywords))
      (runNative c' .packKeywords (ρ.delivery (.varArgsKeywords lead args keywords))) := by
  simp only [Delivery.values, knowsAll_append, knowsAll_cons] at hd
  obtain ⟨⟨hl, ha⟩, hk⟩ := hd
  apply (joins_tuple h _ ha).bind
  intro v q₁ later₁ hv
  have entries : ∀ d, keywords = some d → bond.KnowsAll q₁ d.values := by
    rintro d rfl
    exact later₁.knowsAll hk
  apply (joins_entries later₁.holds entries).bind
  intro dict q₂ later₂ hdict
  rw [← ρ.value_getD]
  refine joins_tuple later₂.holds [lead, v, dict.getD .none] fun mind => ?_
  have made := Runtime.knows_getD fun u hu => hdict u hu mind
  simp [(later₁.trans later₂).knows hl mind, later₂.knows hv mind, made]

theorem joins_receiver (h : bond.Holds p) (hl : bond.Knows p lead) (ha : bond.KnowsAll p args) :
    bond.Joins ρ.value bond.Knows p (runNative c .receiver (.fast lead args))
      (runNative c' .receiver (ρ.delivery (.fast lead args))) := by
  have receiver : (p.2.heap.function? (ρ.value lead)).bind Function.receiver =
      ((p.1.heap.function? lead).bind Function.receiver).map ρ.value := by
    rw [(bond.relocated h).function?]
    cases p.1.heap.function? lead <;> rfl
  apply Joins.get
  dsimp only
  rw [receiver, ← ρ.value_getD]
  refine joins_tuple h (lead :: _ :: args)
    (knowsAll_cons.mpr ⟨hl, knowsAll_cons.mpr ⟨fun mind => Runtime.knows_getD ?_, ha⟩⟩)
  intro v hv
  obtain ⟨f, hf, hr⟩ := Option.bind_eq_some_iff.mp hv
  exact (bond.sound mind h).knows_receiver hf hr

theorem joins_countdown (hc : bond.Calls c c') (h : bond.Holds p) (hl : bond.Knows p lead) :
    bond.Joins ρ.value bond.Knows p (runNative c .countdown (.fast lead args))
      (runNative c' .countdown (ρ.delivery (.fast lead args))) := by
  have first : (args.map ρ.value).head?.bind Value.asInt? = args.head?.bind Value.asInt? := by
    cases args with
    | nil => rfl
    | cons v _ => exact ρ.value_asInt? v
  simp only [runNative, Relocation.delivery, first]
  cases args.head?.bind Value.asInt? with
  | none => exact joins_depth h
  | some n =>
    dsimp only
    split
    · exact hc p h lead [.int (n - 1)] [] hl (fun _ => by simp) (bond.knowsAll_nil p)
    · exact joins_depth h

theorem joins_recordKeywords (h : bond.Holds p) (hl : bond.Knows p lead) {view : ArgsView}
    (hv : bond.KnowsAll p view.values) :
    bond.Joins ρ.value bond.Knows p (runNative c .recordKeywords (.fastKeywords lead view))
      (runNative c' .recordKeywords (ρ.delivery (.fastKeywords lead view))) := by
  simp only [runNative, Relocation.delivery, Relocation.view_positional,
    Relocation.view_keywordValues]
  apply (joins_tuple h _ fun mind => ArgsView.knows_positional (hv mind)).bind
  intro args q₁ later₁ ha
  have names := joins_tuple later₁.holds (view.names.map .text) fun _ u hu => by
    obtain ⟨_, _, rfl⟩ := List.mem_map.mp hu
    trivial
  rw [List.map_map] at names
  apply Joins.bind names
  intro names q₂ later₂ hn
  have values : bond.KnowsAll q₂ view.keywordValues :=
    (later₁.trans later₂).knowsAll fun mind => ArgsView.knows_keywordValues (hv mind)
  apply (joins_tuple later₂.holds _ values).bind
  intro values q₃ later₃ hvs
  have later := later₂.trans later₃
  refine joins_tuple later₃.holds [lead, args, names, values] fun mind => ?_
  simp [(later₁.trans later).knows hl mind, later.knows ha mind, later₃.knows hn mind, hvs mind]

end Natives

theorem joins_runNative (hc : bond.Calls c c') (h : bond.Holds p) {k : Convention}
    (native : Native k) {delivery : Delivery k} (hd : bond.KnowsAll p delivery.values) :
    bond.Joins ρ.value bond.Knows p (runNative c native delivery)
      (runNative c' native (ρ.delivery delivery)) := by
  cases native with
  | lead =>
    cases delivery with
    | noArgs lead => exact joins_pure h (knowsAll_cons.mp hd).1
  | fail | refuse => exact joins_boom h
  | depth => exact joins_depth h
  | pair =>
    cases delivery with
    | single lead arg => exact joins_tuple h _ hd
  | callArgument =>
    cases delivery with
    | single lead arg =>
      have known := (knowsAll_cons.mp (knowsAll_cons.mp hd).2).1
      exact hc p h arg [] [] known (bond.knowsAll_nil p) (bond.knowsAll_nil p)
  | pack =>
    cases delivery with
    | varArgs lead args =>
      obtain ⟨hl, ha⟩ := knowsAll_cons.mp hd
      apply (joins_tuple h _ ha).bind
      intro v q later hv
      exact joins_tuple later.holds [lead, v]
        (knowsAll_cons.mpr ⟨later.knows hl, knowsAll_cons.mpr ⟨hv, bond.knowsAll_nil q⟩⟩)
  | packKeywords =>
    cases delivery with
    | varArgsKeywords lead args keywords => exact joins_packKeywords h hd
  | record =>
    cases delivery with
    | fast lead args => exact joins_tuple h _ hd
  | count =>
    cases delivery with
    | fast lead args =>
      simp only [runNative, Relocation.delivery, List.length_map]
      exact joins_pure (v := Value.int _) h fun _ => trivial
  | apply =>
    cases delivery with
    | fast lead args =>
      exact joins_applyFirst hc h (knowsAll_cons.mp hd).2 (bond.knowsAll_nil p)
  | receiver =>
    cases delivery with
    | fast lead args => exact joins_receiver h (knowsAll_cons.mp hd).1 (knowsAll_cons.mp hd).2
  | countdown =>
    cases delivery with
    | fast lead args => exact joins_countdown hc h (knowsAll_cons.mp hd).1
  | recordKeywords =>
    cases delivery with
    | fastKeywords lead view =>
      exact joins_recordKeywords h (knowsAll_cons.mp hd).1 (knowsAll_cons.mp hd).2
  | applyKeywords =>
    cases delivery with
    | fastKeywords lead view =>
      have hv := (knowsAll_cons.mp hd).2
      simp only [runNative, Relocation.delivery, Relocation.view_positional,
        Relocation.view_keywords]
      exact joins_applyFirst hc h (fun mind => ArgsView.knows_positional (hv mind))
        fun mind => ArgsView.knows_keywords (hv mind)
  | attempt =>
    cases delivery with
    | fastKeywords lead view =>
      have hv := (knowsAll_cons.mp hd).2
      simp only [runNative, Relocation.delivery, Relocation.view_positional,
        Relocation.view_keywords]
      exact (joins_applyFirst hc h (fun mind => ArgsView.knows_positional (hv mind))
        fun mind => ArgsView.knows_keywords (hv mind)).outcome
  | boundMethod =>
    cases delivery with
    | fastKeywords lead view => exact joins_runBound hc h lead (knowsAll_cons.mp hd).2
  | hostFunction =>
    cases delivery with
    | fastKeywords lead view =>
      obtain ⟨hl, hv⟩ := knowsAll_cons.mp hd
      exact joins_runHost hc h hl hv

end CallBond

/-- A bond that the thread does not matter to. -/
structure FreeBond (ρ : Relocation) extends CallBond ρ where
  thread : ∀ {p} (f : Thread → Thread), Holds p →
    Holds ({ p.1 with thread := f p.1.thread }, { p.2 with thread := f p.2.thread }) ∧
      Leads p ({ p.1 with thread := f p.1.thread }, { p.2 with thread := f p.2.thread })
  opened := fun name h => (thread (·.emit ⟨.call, name⟩) h).1
  closed := fun name h leads h' =>
    ⟨(thread (·.emit ⟨.ret, name⟩) h').1,
      trans (trans (thread (·.emit ⟨.call, name⟩) h).2 leads) (thread (·.emit ⟨.ret, name⟩) h').2⟩

namespace FreeBond

open Activity Bond CallBond

variable {ρ : Relocation} {bond : FreeBond ρ} {p q : Runtime × Runtime} {c c' : Callee}

theorem joins_modifyThread (h : bond.Holds p) (f : Thread → Thread) :
    bond.Joins id Any p (modifyThread f) (modifyThread f) :=
  ⟨rfl, ⟨(bond.thread f h).1, (bond.thread f h).2⟩, fun _ _ => trivial⟩

theorem joins_reported (h : bond.Holds p) (start : EventKind) (stop : Bool → EventKind)
    (name : String) {a b : Activity Value}
    (hb : ∀ q, bond.Later p q → bond.Joins ρ.value bond.Knows q a b) :
    bond.Joins ρ.value bond.Knows p (reported start stop name a) (reported start stop name b) := by
  apply (joins_modifyThread h _).bind
  intro _ q later _
  apply (hb q later).observe.bind
  intro result q' later' known
  have ended : (result.map ρ.value).isOk = result.isOk := by
    cases result <;> rfl
  rw [ended]
  apply (joins_modifyThread later'.holds _).bind
  intro _ q'' later'' _
  exact joins_ofExcept later''.holds fun v hv => later''.knows (known v hv)

theorem joins_nested (h : bond.Holds p) {a b : Activity Value}
    (hb : ∀ q, bond.Later p q → bond.Joins ρ.value bond.Knows q a b) :
    bond.Joins ρ.value bond.Knows p (nested a) (nested b) := by
  apply (joins_modifyThread h _).bind
  intro _ q later _
  apply (hb q later).observe.bind
  intro result q' later' known
  apply (joins_modifyThread later'.holds _).bind
  intro _ q'' later'' _
  exact joins_ofExcept later''.holds fun v hv => later''.knows (known v hv)

theorem joins_enter {call call' : Option Callee} (hc : Option.Rel bond.Calls call call')
    (h : bond.Holds p) (entry : Entry) {handed : Except CallError (Delivery entry.convention)}
    (hd : ∀ delivery, handed = .ok delivery → bond.KnowsAll p delivery.values) :
    bond.Joins ρ.value bond.Knows p (enter call entry handed)
      (enter call' entry (handed.map ρ.delivery)) := by
  cases handed with
  | error e =>
    exact (joins_modifyThread h _).bind fun _ _ later _ => joins_throw later.holds e
  | ok delivery =>
    apply Joins.get
    rw [(bond.relocated h).thread]
    cases hc with
    | none => exact joins_throw h _
    | @some c c' hc =>
      dsimp only
      cases p.1.thread.hasRoom with
      | false => exact joins_throw h _
      | true =>
        refine joins_nested h fun q₁ later₁ => ?_
        apply (joins_modifyThread later₁.holds _).bind
        intro _ q₂ later₂ _
        have native {q₃ : Runtime × Runtime} (later₃ : bond.Later q₂ q₃) :
            bond.Joins ρ.value bond.Knows q₃ (runNative c entry.native delivery)
              (runNative c' entry.native (ρ.delivery delivery)) :=
          joins_runNative hc later₃.holds _
            ((later₁.trans (later₂.trans later₃)).knowsAll (hd delivery rfl))
        split
        · exact native (.refl later₂.holds)
        · exact joins_reported later₂.holds _ _ _ fun q₃ later₃ => native later₃

theorem dispatches_dispatchWith {call call' : Option Callee}
    (hc : Option.Rel bond.Calls call call') :
    bond.Dispatches (dispatchWith call) (dispatchWith call') := by
  intro p h callable f args keywords hf known ha hk
  have here := Runtime.function?_of_baseFunction? hf
  apply Joins.get
  rw [(bond.relocated h).deliver]
  exact joins_enter hc h f.entry fun delivery hd mind =>
    (bond.sound mind h).knows_deliver here (known mind) (ha mind) (hk mind) hd

theorem calls_callWithin (bond : FreeBond ρ) (room : Nat) :
    bond.Calls (callWithin room) (callWithin room) := by
  induction room with
  | zero => exact (dispatches_dispatchWith .none).calls
  | succ room ih => exact (dispatches_dispatchWith (.some ih)).calls

/-- Calls go the same way, however deep they are nested. -/
theorem calls_call (bond : FreeBond ρ) : bond.Calls call call := by
  intro p h callee args keywords known ha hk
  apply Joins.get
  rw [(bond.relocated h).thread]
  exact bond.calls_callWithin p.1.thread.room p h callee args keywords known ha hk

end FreeBond
end Callables

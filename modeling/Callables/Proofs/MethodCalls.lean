import Callables.Proofs.BoundCalls
import Callables.Proofs.Insertion

namespace Callables

def Relocation.moving (ρ : Relocation) : FreeBond ρ where
  Holds p := ρ.Relocated p.1 p.2
  Leads _ _ := True
  minds := False
  refl _ := trivial
  trans _ _ := trivial
  relocated h := h
  sound mind := mind.elim
  grows mind := mind.elim
  piece _ h fair := ⟨Piece.relocated_after h fair, trivial⟩
  thread f h := ⟨{ h with thread := congrArg f h.thread }, trivial⟩

namespace Activity

def callAttribute (receiver : Value) (name : String) (args : List Value) (keywords : Keywords) :
    Activity Value := do
  let attr ← getAttribute receiver name
  call attr args keywords

/-- Two activities that end alike: with the same error, or with the same value and the same objects,
up to the places of those that are new. -/
def EndAlike (rt : Runtime) (a b : Activity Value) : Prop :=
  ∃ ρ : Relocation, ρ.FixesHeap rt ∧ (b.run rt).1 = (a.run rt).1.map ρ.value ∧
    ∀ v, (a.run rt).1 = .ok v → ρ.Relocated (a.run rt).2 (b.run rt).2

variable {ρ : Relocation} {rt rt' : Runtime}

theorem endAlike_of_error {a b : Activity Value} {e : CallError} (ha : (a.run rt).1 = .error e)
    (hb : (b.run rt).1 = .error e) : EndAlike rt a b := by
  refine ⟨.stay, fun _ _ _ => rfl, ?_, ?_⟩
  · rw [ha, hb]
    rfl
  · intro v hv
    rw [ha] at hv
    cases hv

theorem joins_held {a b : Activity Value} (h : ρ.Relocated rt rt') (values : List Value)
    (hb : ∀ s, ρ.Relocated s rt' → ρ.moving.Joins ρ.value ρ.moving.Knows (s, rt') a b) :
    ρ.moving.Joins ρ.value ρ.moving.Knows (rt, rt') (holding values a) b := by
  obtain ⟨move, held⟩ := run_holding values a rt
  obtain ⟨result, ⟨after, -⟩, -⟩ :=
    hb { rt with ledger := rt.ledger.push (.take values) } { h with }
  refine ⟨?_, ⟨?_, trivial⟩, fun _ _ => False.elim⟩
  · rw [held]
    exact result
  · rw [held]
    exact { after with }

end Activity

namespace Runtime

/-- A value that has its methods from its class: no function, no module and no class itself. -/
structure Ordinary (rt : Runtime) (v : Value) : Prop where
  function : rt.baseFunction? v = none
  module : rt.moduleNames? v = none
  type : ∀ id, v ≠ .type id

variable {rt : Runtime} {receiver method : Value} {name : String} {f : Function}

/-- What the short cut finds is what an ordinary receiver would be bound to. -/
theorem Unwrapped.run_getAttribute (u : rt.Unwrapped receiver name method f)
    (ordinary : rt.Ordinary receiver) :
    (Activity.getAttribute receiver name).run rt =
      (Activity.bindMethod method receiver).run rt := by
  have own : (rt.ownAttributes? receiver).bind (·.get? name) = none := by
    have hidden := u.hidden
    cases ho : rt.ownAttributes? receiver with
    | none => rfl
    | some d => simpa [ho, Dict.contains_eq_isSome] using hidden
  have access : rt.accessOf receiver = (some receiver, (rt.typeOf receiver).id) := by
    cases receiver with
    | type id => exact absurd rfl (ordinary.type id)
    | none | bool | int | float | text | object => rfl
  have binding : rt.bindingReceiver? method (some receiver)
      (some (rt.typeOf receiver).id) = some receiver := by
    simp [bindingReceiver?, u.function, Function.isBound, u.unbound, u.onInstance]
  have ofClass : (Activity.getClassAttribute receiver name).run rt =
      (Activity.bindMethod method receiver).run rt := by
    unfold Activity.getClassAttribute Activity.bindOnAccess
    rw [Activity.run_get, access]
    dsimp only
    rw [u.found]
    dsimp only
    rw [if_pos u.binds, Activity.run_get, binding]
  have object : (Activity.getObjectAttribute receiver name).run rt =
      (Activity.bindMethod method receiver).run rt := by
    unfold Activity.getObjectAttribute
    rw [Activity.run_get, ordinary.module, own]
    exact ofClass
  have direct : (Activity.getDirectAttribute receiver name).run rt =
      (Activity.bindMethod method receiver).run rt := by
    unfold Activity.getDirectAttribute
    rw [Activity.run_get, ordinary.function]
    cases receiver <;> exact object
  unfold Activity.getAttribute
  rw [Activity.run_get, ordinary.function]
  exact direct

/-- Without a short cut, the two differ only in what is held. -/
theorem endAlike_of_plain (plain : rt.unboundMethod? receiver name = none) (args : List Value)
    (keywords : Keywords) :
    Activity.EndAlike rt (Activity.callMethod receiver name args keywords)
      (Activity.callAttribute receiver name args keywords) := by
  have holds : Relocation.stay.moving.Holds (rt, rt) := Relocation.stay_relocated rt
  have known : Relocation.stay.moving.Knows (rt, rt) receiver := False.elim
  have read := Bond.joins_getAttribute holds known name
  rw [Relocation.stay_value] at read
  have steps : Relocation.stay.moving.Joins Relocation.stay.value Relocation.stay.moving.Knows
      (rt, rt)
      (do
        let attr ← Activity.getAttribute receiver name
        Activity.holding [attr] (Activity.call attr args keywords))
      (Activity.callAttribute receiver name args keywords) := by
    apply read.bind
    intro attr p later _
    have called := Activity.joins_held later.holds [attr] fun s h =>
      Relocation.stay.moving.calls_call (s, p.2) h attr args keywords False.elim False.elim
        False.elim
    rw [Relocation.stay_values, Relocation.stay_keywords] at called
    exact called
  have run : (Activity.callMethod receiver name args keywords).run rt =
      (do
        let attr ← Activity.getAttribute receiver name
        Activity.holding [attr] (Activity.call attr args keywords) : Activity Value).run rt := by
    unfold Activity.callMethod Activity.callMethodWith
    rw [Activity.run_get, plain]
  refine ⟨.stay, fun _ _ _ => rfl, ?_, fun _ _ => ?_⟩
  · rw [run]
    exact steps.result
  · rw [run]
    exact steps.later.holds

def adding (rt : Runtime) (o : Object) : Runtime :=
  { rt with heap := rt.heap.push o, ledger := rt.ledger.push (.create o) }

/-- An unbound function accepts a receiver that conforms, and the wrapper is the next object. -/
theorem run_bindMethod (hf : rt.baseFunction? method = some f) (unbound : f.receiver = none)
    (conforms : ∀ owner, f.owner = some owner → rt.conforms f.entry owner receiver = true) :
    (Activity.bindMethod method receiver).run rt =
      (.ok (.object rt.heap.nextRef),
        rt.adding (.function (directWrapper method f receiver))) := by
  have made : rt.wrapper method receiver = .ok (directWrapper method f receiver) := by
    unfold wrapper
    rw [hf]
    dsimp only
    rw [if_neg (by simp [Function.isBound, unbound])]
    cases ho : f.owner with
    | none => rfl
    | some owner =>
      dsimp only
      rw [checkSelf, if_pos (conforms owner ho)]
      rfl
  unfold Activity.bindMethod
  rw [Activity.run_get, made]
  rfl

/-- An unbound function refuses a receiver that does not conform. -/
theorem run_bindMethod_refused (hf : rt.baseFunction? method = some f) {owner : TypeId}
    (ho : f.owner = some owner) (refused : rt.conforms f.entry owner receiver = false) :
    ((Activity.bindMethod method receiver).run rt).1 =
      .error (.wrongSelfType f.entry.name (rt.types.info owner).name (rt.typeName receiver)) := by
  have failed : rt.wrapper method receiver =
      .error (.wrongSelfType f.entry.name (rt.types.info owner).name (rt.typeName receiver)) := by
    unfold wrapper
    rw [hf]
    dsimp only
    rw [ho]
    dsimp only
    rw [checkSelf, if_neg (by simp [refused])]
    rfl
  unfold Activity.bindMethod
  rw [Activity.run_get, failed]
  rfl

theorem Sound.adding_wraps (sound : rt.Sound) (hf : rt.baseFunction? method = some f)
    (unbound : f.receiver = none)
    (conforms : ∀ owner, f.owner = some owner → rt.conforms f.entry owner receiver = true)
    (hr : rt.Knows receiver) :
    (rt.adding (.function (directWrapper method f receiver))).Wraps (.object rt.heap.nextRef)
      (directWrapper method f receiver) method f receiver := by
  have inner := function?_of_baseFunction? hf
  have grows := Changes.grows
    (sound.changes_bindMethod (knows_of_function? inner) hr (run_bindMethod hf unbound conforms))
  refine ⟨?_, ?_, rfl, rfl, rfl, rfl, unbound, ?_, ?_⟩
  · exact Heap.function?_of_get? ((Heap.get?_push ..).trans (if_pos rfl))
  · obtain ⟨r, rfl, ho⟩ := Heap.get?_of_function? inner
    exact Heap.function?_of_get? (Heap.get?_push_of_some _ ho)
  · intro owner ho
    rw [grows.conforms sound f.entry owner hr]
    exact conforms owner ho
  · intro host
    obtain ⟨entry, owner, _⟩ := (sound.fits inner).host host
    exact ⟨entry, owner⟩

/-- A call that does not come to the entry point fails with what keeps it from it. -/
theorem run_call_refused {callee : Value} {args : List Value} {keywords : Keywords}
    {e : CallError} (hf : rt.baseFunction? callee = some f)
    (refused : rt.deliver callee f args keywords = .error e) :
    ((Activity.call callee args keywords).run rt).1 = .error e := by
  obtain ⟨level, calls⟩ := Activity.run_call rt
  rw [calls hf]
  unfold Activity.dispatchWith
  rw [Activity.run_get, refused]
  rfl

end Runtime

/-- An entry point is handed the arguments by position that there are, or the call is refused with
their number. -/
theorem Delivery.length_eq_of_make {ρ : Relocation} {name : String} {lead lead' : Value}
    {args args' : List Value} {keywords : Keywords} {c : Convention}
    (taken : (!keywords.isEmpty && !c.acceptsKeywords) = false)
    (same : make name lead' args' keywords c = (make name lead args keywords c).map ρ.delivery) :
    args'.length = args.length := by
  unfold make at same
  rw [taken, if_neg Bool.false_ne_true, if_neg Bool.false_ne_true] at same
  cases c with
  | noArgs =>
    match args, args' with
    | [], [] => rfl
    | [], _ :: _ => cases same
    | _ :: _, [] => cases same
    | _ :: _, _ :: _ => simpa [Except.map] using same
  | single =>
    match args, args' with
    | [], [] => rfl
    | [_], [_] => rfl
    | [], [_] => cases same
    | [], _ :: _ :: _ => simp [Except.map] at same
    | [_], [] => cases same
    | [_], _ :: _ :: _ => cases same
    | _ :: _ :: _, [] => simp [Except.map] at same
    | _ :: _ :: _, [_] => cases same
    | _ :: _ :: _, _ :: _ :: _ => simpa [Except.map] using same
  | varArgs =>
    have items := (Delivery.varArgs.inj (Except.ok.inj same)).2
    rw [items, List.length_map]
  | varArgsKeywords =>
    have items := (Delivery.varArgsKeywords.inj (Except.ok.inj same)).2.1
    rw [items, List.length_map]
  | fast =>
    have items := (Delivery.fast.inj (Except.ok.inj same)).2
    rw [items, List.length_map]
  | fastKeywords =>
    have view := (Delivery.fastKeywords.inj (Except.ok.inj same)).2
    have values := congrArg (fun view => view.values.length) view
    simpa [ArgsView.ofCall, Relocation.view] using values

/-- An entry that refuses keywords, or every call, whatever the arguments by position are. -/
def Entry.Refuses (entry : Entry) (keywords : Keywords) : Prop :=
  ∃ e, ∀ lead args, entry.accept lead args keywords = .error e

theorem Entry.takes_of_not_refuses (entry : Entry) {keywords : Keywords}
    (opens : ¬entry.Refuses keywords) :
    (∃ c, entry.validate = .ok c) ∧
      (!keywords.isEmpty && !entry.convention.acceptsKeywords) = false := by
  cases hv : entry.validate with
  | error e =>
    refine absurd ⟨e, fun lead args => ?_⟩ opens
    rw [Runtime.accept_eq, hv]
  | ok c =>
    refine ⟨⟨c, rfl⟩, ?_⟩
    cases unnamed : !keywords.isEmpty && !entry.convention.acceptsKeywords with
    | false => rfl
    | true =>
      refine absurd ⟨.noKeywordArguments entry.name, fun lead args => ?_⟩ opens
      rw [Runtime.accept_eq, hv]
      exact if_pos unnamed

namespace Runtime

/-- A short cut to a method that an ordinary receiver would be bound to. -/
structure ShortCut (rt : Runtime) (receiver : Value) (name : String) (method : Value)
    (f : Function) : Prop extends rt.Unwrapped receiver name method f where
  taken : rt.unboundMethod? receiver name = some method
  ordinary : rt.Ordinary receiver

def Accepts (rt : Runtime) (f : Function) (receiver : Value) : Prop :=
  ∀ owner, f.owner = some owner → rt.conforms f.entry owner receiver = true

namespace ShortCut

variable {rt : Runtime} {receiver method : Value} {name : String} {f : Function}
  (cut : rt.ShortCut receiver name method f)

include cut

theorem run_callMethod (args : List Value) (keywords : Keywords) :
    (Activity.callMethod receiver name args keywords).run rt =
      (Activity.holding [method] (Activity.call method (receiver :: args) keywords)).run rt := by
  unfold Activity.callMethod Activity.callMethodWith
  rw [Activity.run_get, cut.taken]

theorem callMethod_refused {args : List Value} {keywords : Keywords} {e : CallError}
    (refused : rt.deliver method f (receiver :: args) keywords = .error e) :
    ((Activity.callMethod receiver name args keywords).run rt).1 = .error e := by
  obtain ⟨move, held⟩ := Activity.run_holding [method]
    (Activity.call method (receiver :: args) keywords) rt
  rw [cut.run_callMethod, held]
  exact run_call_refused cut.function refused

/-- The attribute is the wrapper, so it is the wrapper that is called. -/
theorem run_callAttribute (accepts : rt.Accepts f receiver) (args : List Value)
    (keywords : Keywords) :
    (Activity.callAttribute receiver name args keywords).run rt =
      (Activity.call (.object rt.heap.nextRef) args keywords).run
        (rt.adding (.function (directWrapper method f receiver))) := by
  unfold Activity.callAttribute
  rw [run_bind, cut.run_getAttribute cut.ordinary,
    run_bindMethod cut.function cut.unbound accepts]

/-- A receiver that does not conform is refused in the same words. -/
theorem endAlike_of_not_accepts (refuses : ¬rt.Accepts f receiver) (args : List Value)
    (keywords : Keywords) :
    Activity.EndAlike rt (Activity.callMethod receiver name args keywords)
      (Activity.callAttribute receiver name args keywords) := by
  obtain ⟨owner, ho, refused⟩ : ∃ owner, f.owner = some owner ∧
      rt.conforms f.entry owner receiver = false := by
    simpa [Accepts] using refuses
  have checked : rt.checkReceiver f (receiver :: args) =
      .error (.wrongSelfType f.entry.name (rt.types.info owner).name (rt.typeName receiver)) := by
    unfold checkReceiver
    rw [ho, cut.unbound]
    exact if_neg (by simp [refused])
  have unbound : ((Activity.getAttribute receiver name).run rt).1 =
      .error (.wrongSelfType f.entry.name (rt.types.info owner).name (rt.typeName receiver)) := by
    rw [cut.run_getAttribute cut.ordinary]
    exact run_bindMethod_refused cut.function ho refused
  apply Activity.endAlike_of_error
  · apply cut.callMethod_refused
    rw [deliver_eq, checked]
  · unfold Activity.callAttribute
    rw [run_bind]
    rcases ran : (Activity.getAttribute receiver name).run rt with ⟨result, s⟩
    rw [ran] at unbound
    cases unbound
    rfl

theorem checkReceiver (accepts : rt.Accepts f receiver) (args : List Value) :
    rt.checkReceiver f (receiver :: args) = .ok () := by
  unfold Runtime.checkReceiver
  rw [cut.unbound]
  cases ho : f.owner with
  | none => rfl
  | some owner => exact if_pos (accepts owner ho)

/-- An entry that refuses the call refuses it either way. -/
theorem endAlike_of_refuses (sound : rt.Sound) (accepts : rt.Accepts f receiver)
    (hr : rt.Knows receiver) (args : List Value) {keywords : Keywords}
    (refuses : f.entry.Refuses keywords) :
    Activity.EndAlike rt (Activity.callMethod receiver name args keywords)
      (Activity.callAttribute receiver name args keywords) := by
  obtain ⟨e, refused⟩ := refuses
  have wraps := sound.adding_wraps cut.function cut.unbound accepts hr
  have bound := sound.changes_bindMethod
    (knows_of_function? (function?_of_baseFunction? cut.function)) hr
    (run_bindMethod cut.function cut.unbound accepts)
  apply Activity.endAlike_of_error
  · apply cut.callMethod_refused
    rw [deliver_eq, cut.checkReceiver accepts]
    exact refused _ _
  · rw [cut.run_callAttribute accepts]
    apply run_call_refused ((sound.changes bound).baseFunction?_eq wraps.outer)
    rw [deliver_eq, (wraps.checkReceiver args).1]
    exact refused _ _

/-- A function that takes the receiver is called the same way, with the wrapper on the heap or
without. -/
theorem endAlike_of_takesReceiver (sound : rt.Sound) (accepts : rt.Accepts f receiver)
    (takes : f.TakesReceiver) (hr : rt.Knows receiver) {args : List Value} {keywords : Keywords}
    (ha : rt.KnowsAll args) (hk : rt.KnowsAll keywords.values) :
    Activity.EndAlike rt (Activity.callMethod receiver name args keywords)
      (Activity.callAttribute receiver name args keywords) := by
  have known := knows_of_function? (function?_of_baseFunction? cut.function)
  have wraps := sound.adding_wraps cut.function cut.unbound accepts hr
  have bound := sound.changes_bindMethod known hr
    (run_bindMethod cut.function cut.unbound accepts)
  have fixes := Relocation.skip_fixesHeap rt
  have moved := sound.relocated_push (.function (directWrapper method f receiver))
    (rt.ledger.push (.create (.function (directWrapper method f receiver))))
  have steps := Activity.joins_held moved [method] fun s h =>
    (Relocation.skip rt.heap.nextRef).moving.calls_call (s, _) h method (receiver :: args) keywords
      False.elim False.elim False.elim
  have stays : (Relocation.skip rt.heap.nextRef).value method = method :=
    (Relocation.fixes_cons.mp (fixes.fixes ((knowsAll_cons ..).mpr ⟨known, ha⟩))).1
  have given := (fixes.fixes ((knowsAll_cons ..).mpr ⟨hr, ha⟩)).values
  rw [stays, given, (fixes.fixes hk).keywords] at steps
  have left := cut.run_callMethod args keywords
  have right := (cut.run_callAttribute accepts args keywords).trans
    (wraps.run_call (sound.changes bound) takes args keywords)
  refine ⟨_, fixes, ?_, fun _ _ => ?_⟩
  · rw [left, right]
    exact steps.result
  · rw [left, right]
    exact steps.later.holds

/-- A function that does not take the receiver keeps it among the arguments by position, where the
wrapper does not put it: whatever the arguments are, the entry point is not handed the same, or the
call is refused with another number of arguments. -/
theorem deliver_ne (accepts : rt.Accepts f receiver) (misses : ¬f.TakesReceiver)
    (sound : rt.Sound) (hr : rt.Knows receiver) (args : List Value) {keywords : Keywords}
    (opens : ¬f.entry.Refuses keywords) (ρ : Relocation) :
    (rt.adding (.function (directWrapper method f receiver))).deliver
        (.object rt.heap.nextRef) (directWrapper method f receiver) args keywords ≠
      (rt.deliver method f (receiver :: args) keywords).map ρ.delivery := by
  have wraps := sound.adding_wraps cut.function cut.unbound accepts hr
  have inner : (leadingArgument method f (receiver :: args)).2 = receiver :: args := by
    unfold leadingArgument
    rw [cut.unbound]
    cases hp : f.entry.flags.has .passFunction with
    | true => rfl
    | false =>
      cases ho : f.owner.isSome && !f.entry.flags.has .keepSelf with
      | false => rfl
      | true =>
        obtain ⟨owned, sliced⟩ := Bool.and_eq_true_iff.mp ho
        exact absurd (.inr ⟨owned, hp, (Bool.not_eq_true' _).mp sliced⟩) misses
  have outer : (leadingArgument (.object rt.heap.nextRef) (directWrapper method f receiver)
      args).2 = args := by
    unfold leadingArgument
    split <;> rfl
  obtain ⟨⟨_, valid⟩, taken⟩ := f.entry.takes_of_not_refuses opens
  intro same
  rw [deliver_eq, deliver_eq, (wraps.checkReceiver args).1, cut.checkReceiver accepts, inner,
    outer] at same
  change f.entry.accept _ args keywords =
    (f.entry.accept _ (receiver :: args) keywords).map ρ.delivery at same
  rw [accept_eq, accept_eq, valid] at same
  have lengths := Delivery.length_eq_of_make taken same
  exact absurd lengths (Nat.ne_of_lt (Nat.lt_succ_self _))

end ShortCut

/-- Whether the short cut, if there is one, comes to the same as the way through the wrapper: the
receiver is an ordinary one, and the function takes it, or the call is refused either way. -/
def ShortCutFits (rt : Runtime) (receiver : Value) (name : String) (keywords : Keywords) : Prop :=
  ∀ method f, rt.unboundMethod? receiver name = some method → rt.baseFunction? method = some f →
    rt.Ordinary receiver ∧
      (f.TakesReceiver ∨ ¬rt.Accepts f receiver ∨ f.entry.Refuses keywords)

/-- Where the short cut fits, a method call ends like reading the attribute and calling it. Where an
ordinary receiver meets one that does not fit, the entry point of the method is never handed the
same, or the two calls are refused differently. -/
theorem Reachable.method_call_ends_alike (h : rt.Reachable) (hr : rt.Knows receiver)
    (name : String) {args : List Value} {keywords : Keywords} (ha : rt.KnowsAll args)
    (hk : rt.KnowsAll keywords.values) :
    (rt.ShortCutFits receiver name keywords →
      Activity.EndAlike rt (Activity.callMethod receiver name args keywords)
        (Activity.callAttribute receiver name args keywords)) ∧
    (rt.Ordinary receiver → ¬rt.ShortCutFits receiver name keywords →
      ∃ method f m rt₁, rt.unboundMethod? receiver name = some method ∧
        rt.baseFunction? method = some f ∧
        (Activity.getAttribute receiver name).run rt = (.ok m, rt₁) ∧
        rt₁.baseFunction? m = some (directWrapper method f receiver) ∧
        ∀ ρ : Relocation, rt₁.deliver m (directWrapper method f receiver) args keywords ≠
          (rt.deliver method f (receiver :: args) keywords).map ρ.delivery) := by
  have sound := h.sound
  cases hm : rt.unboundMethod? receiver name with
  | none =>
    refine ⟨fun _ => endAlike_of_plain hm args keywords, fun _ unfit => ?_⟩
    refine absurd (fun method f taken _ => ?_) unfit
    rw [hm] at taken
    cases taken
  | some method =>
    obtain ⟨f, unwrapped⟩ := unwrapped_of_unboundMethod? hm
    constructor
    · intro fits
      obtain ⟨ordinary, how⟩ := fits method f hm unwrapped.function
      have cut : rt.ShortCut receiver name method f := ⟨unwrapped, hm, ordinary⟩
      by_cases accepts : rt.Accepts f receiver
      · rcases how with takes | refuses | refuses
        · exact cut.endAlike_of_takesReceiver sound accepts takes hr ha hk
        · exact absurd accepts refuses
        · exact cut.endAlike_of_refuses sound accepts hr args refuses
      · exact cut.endAlike_of_not_accepts accepts args keywords
    · intro ordinary unfit
      have cut : rt.ShortCut receiver name method f := ⟨unwrapped, hm, ordinary⟩
      have fits (how : f.TakesReceiver ∨ ¬rt.Accepts f receiver ∨ f.entry.Refuses keywords) :
          rt.ShortCutFits receiver name keywords := by
        intro method' f' hm' hf'
        obtain rfl := Option.some.inj (hm.symm.trans hm')
        obtain rfl := Option.some.inj (unwrapped.function.symm.trans hf')
        exact ⟨ordinary, how⟩
      have misses : ¬f.TakesReceiver := fun takes => unfit (fits (.inl takes))
      have accepts : rt.Accepts f receiver :=
        Classical.not_not.mp fun refuses => unfit (fits (.inr (.inl refuses)))
      have opens : ¬f.entry.Refuses keywords := fun refuses => unfit (fits (.inr (.inr refuses)))
      have bound := run_bindMethod unwrapped.function unwrapped.unbound accepts
      have known := knows_of_function? (function?_of_baseFunction? unwrapped.function)
      have wraps := sound.adding_wraps unwrapped.function unwrapped.unbound accepts hr
      refine ⟨method, f, .object rt.heap.nextRef,
        rt.adding (.function (directWrapper method f receiver)), rfl, unwrapped.function,
        ?_, ?_, ?_⟩
      · exact (unwrapped.run_getAttribute ordinary).trans bound
      · exact (sound.changes (sound.changes_bindMethod known hr bound)).baseFunction?_eq
          wraps.outer
      · exact cut.deliver_ne accepts misses sound hr args opens

theorem method_call_enlisted :
    Activity.EndAlike Session.enlisted.runtime
      (Activity.callMethod (.object 1) "m" [.int 1] [])
      (Activity.callAttribute (.object 1) "m" [.int 1] []) := by
  have reachable := Reachable.of_session Session.enlisted_reachable
  have known : Session.enlisted.runtime.Knows (.object 1) :=
    Option.isSome_iff_exists.mp (by decide +kernel :
      (Session.enlisted.runtime.heap.get? 1).isSome = true)
  have ordinary : Session.enlisted.runtime.Ordinary (.object 1) := by
    refine ⟨Option.isNone_iff_eq_none.mp ?_, by decide +kernel, fun _ h => by cases h⟩
    decide +kernel
  have takes : (Session.enlisted.runtime.baseFunction? (.object 0)).all (fun f =>
      f.owner.isSome && !f.entry.flags.has .passFunction &&
        !f.entry.flags.has .keepSelf) = true := by decide +kernel
  have found : Session.enlisted.runtime.unboundMethod? (.object 1) "m" = some (.object 0) := by
    decide +kernel
  refine (Reachable.method_call_ends_alike reachable known "m" ?_ ?_).1 ?_
  · intro v hv
    obtain rfl := List.mem_singleton.mp hv
    trivial
  · intro v hv
    cases hv
  · intro method f hm hf
    obtain rfl := Option.some.inj (found.symm.trans hm)
    rw [hf] at takes
    simp only [Option.all_some, Bool.and_eq_true, Bool.not_eq_true'] at takes
    exact ⟨ordinary, .inl (.inr ⟨takes.1.1, takes.1.2, takes.2⟩)⟩

end Runtime

namespace Session

/-- A class whose dict has a function without an owner class, one that keeps its first argument and
one that leads with itself, and a method of the root. -/
def misrouted : Session :=
  (start .standard .empty).run [
    (.newType "T" [], some "T"),
    (.newInstance (.kept "T"), some "t"),
    (.define "m" ⟨"m", .fast, .record, .fast, none, false⟩, none),
    (.newNativeFunction "m" none none none, some "f"),
    (.setTypeAttribute (.kept "T") "m" (.kept "f"), none),
    (.define "k" ⟨"k", .fast, .record, EntryFlags.join .fast .keepSelf, none, false⟩, none),
    (.define "p" ⟨"p", .fast, .record,
      (EntryFlags.join .fast .passFunction).join .host, none, false⟩, none),
    (.addTableToType (.kept "T") ["k", "p"], none),
    (.define "c" ⟨"c", .fast, .record, .fast, none, false⟩, none),
    (.addTableToType (.builtin "object") ["c"], none),
    (.newModule "M", some "M")]

theorem misrouted_reachable : misrouted.Reachable :=
  (Reachable.start _ _).run (by decide +kernel)

end Session

namespace Activity

def answered (rt : Runtime) (a : Activity Value) : Option (List Value) :=
  (a.run rt).1.toOption.bind (a.run rt).2.heap.tuple?

theorem EndAlike.answered {rt : Runtime} {a b : Activity Value} (h : EndAlike rt a b) :
    (answered rt b).map List.length = (answered rt a).map List.length := by
  obtain ⟨ρ, _, result, after⟩ := h
  unfold Activity.answered
  rw [result]
  cases ha : (a.run rt).1 with
  | error e => rfl
  | ok v =>
    have tuple := (after v ha).tuple? v
    simp only [Except.map, Except.toOption, Option.bind_some, tuple]
    cases (a.run rt).2.heap.tuple? v <;> simp

end Activity

/-- An instance with each of the three functions, the class, the function without an owner class,
and a module: none of these calls ends like the call of the attribute. -/
theorem Runtime.method_call_misrouted :
    Session.misrouted.runtime.Reachable ∧
      ∀ call ∈ [(Value.object 0, "m"), (.object 0, "k"), (.object 0, "p"), (.type ⟨256⟩, "c"),
        (.object 1, "c"), (.object 6, "c")],
        Session.misrouted.runtime.Knows call.1 ∧
          ¬Activity.EndAlike Session.misrouted.runtime
            (Activity.callMethod call.1 call.2 [.int 1] [])
            (Activity.callAttribute call.1 call.2 [.int 1] []) := by
  refine ⟨.of_session Session.misrouted_reachable, fun call listed => ⟨?_, fun alike => ?_⟩⟩
  · have there : ∀ r ∈ [0, 1, 6], (Session.misrouted.runtime.heap.get? r).isSome = true := by
      decide +kernel
    have object {r : Ref} (hr : r ∈ [0, 1, 6]) :
        Session.misrouted.runtime.Knows (.object r) :=
      Option.isSome_iff_exists.mp (there r hr)
    have type : Session.misrouted.runtime.Knows (.type ⟨256⟩) := by
      change Session.misrouted.runtime.types.contains ⟨256⟩ = true
      decide +kernel
    simp only [List.mem_cons, List.not_mem_nil, or_false] at listed
    rcases listed with rfl | rfl | rfl | rfl | rfl | rfl
    · exact object (by decide)
    · exact object (by decide)
    · exact object (by decide)
    · exact type
    · exact object (by decide)
    · exact object (by decide)
  · have lengths : ∀ call ∈ [(Value.object 0, "m"), (.object 0, "k"), (.object 0, "p"),
        (.type ⟨256⟩, "c"), (.object 1, "c"), (.object 6, "c")],
        (Activity.answered Session.misrouted.runtime
          (Activity.callAttribute call.1 call.2 [.int 1] [])).map List.length ≠
        (Activity.answered Session.misrouted.runtime
          (Activity.callMethod call.1 call.2 [.int 1] [])).map List.length := by decide +kernel
    exact lengths call listed alike.answered

end Callables

import Callables.Proofs.Subtyping

namespace Callables

structure Dispatch where
  runtime : Runtime
  callable : Value
  function : Function
  args : List Value
  keywords : Keywords

inductive Invocation
  | call (callee : Value) (args : List Value) (keywords : Keywords)
  | callMethod (receiver : Value) (name : String) (args : List Value) (keywords : Keywords)

namespace Invocation

def run (call : Callee) : Invocation → Activity Value
  | .call callee args keywords => call callee args keywords
  | .callMethod receiver name args keywords =>
    Activity.callMethodWith call receiver name args keywords

def values : Invocation → List Value
  | .call target args keywords | .callMethod target _ args keywords =>
    target :: (args ++ keywords.values)

end Invocation

theorem Bond.joins_invocation {bond : Bond .stay} {p : Runtime × Runtime} {c c' : Callee}
    (hc : bond.Calls c c') (h : bond.Holds p) (i : Invocation) (hi : bond.KnowsAll p i.values) :
    bond.Joins Relocation.stay.value bond.Knows p (i.run c) (i.run c') := by
  cases i with
  | call callee args keywords =>
    obtain ⟨known, rest⟩ := knowsAll_cons.mp hi
    obtain ⟨ha, hk⟩ := knowsAll_append.mp rest
    exact hc.joins h known ha hk
  | callMethod receiver name args keywords =>
    obtain ⟨known, rest⟩ := knowsAll_cons.mp hi
    obtain ⟨ha, hk⟩ := knowsAll_append.mp rest
    exact hc.joins_method h name known ha hk

namespace Activity

variable {rt : Runtime} {ok : Dispatch → Prop} {alarm : Activity Value}

open Classical in
/-- Carries out the dispatches that are `ok`; the others raise an alarm instead. -/
noncomputable def monitored (ok : Dispatch → Prop) (alarm : Activity Value)
    (dispatch : Dispatcher) : Dispatcher :=
  fun callable f args keywords => do
    let rt ← get
    if ok ⟨rt, callable, f, args, keywords⟩ then dispatch callable f args keywords else alarm

noncomputable def monitoredWithin (ok : Dispatch → Prop) (alarm : Activity Value) : Nat → Callee
  | 0, callee, args, keywords =>
    callWith (monitored ok alarm (dispatchWith none)) args callee keywords
  | room + 1, callee, args, keywords =>
    callWith (monitored ok alarm (dispatchWith (some (monitoredWithin ok alarm room))))
      args callee keywords

noncomputable def monitoredCall (ok : Dispatch → Prop) (alarm : Activity Value) : Callee :=
  fun callee args keywords => do
    monitoredWithin ok alarm (← get).thread.room callee args keywords

/-- Every dispatch of an invocation is `ok`, however deep: there never is an alarm, so that no
matter what it would do everything goes as without. -/
def EveryDispatch (rt : Runtime) (i : Invocation) (ok : Dispatch → Prop) : Prop :=
  ∀ alarm, (i.run (monitoredCall ok alarm)).run rt = (i.run call).run rt

theorem run_monitored (alarm : Activity Value) (d : Dispatcher) (callable : Value) (f : Function)
    (args : List Value) (keywords : Keywords) :
    (ok ⟨rt, callable, f, args, keywords⟩ →
      (monitored ok alarm d callable f args keywords).run rt =
        (d callable f args keywords).run rt) ∧
    (¬ ok ⟨rt, callable, f, args, keywords⟩ →
      (monitored ok alarm d callable f args keywords).run rt = alarm.run rt) := by
  classical
  have unfolded : (monitored ok alarm d callable f args keywords).run rt =
      (if ok ⟨rt, callable, f, args, keywords⟩ then d callable f args keywords
        else alarm).run rt := rfl
  exact ⟨fun h => by rw [unfolded, if_pos h], fun h => by rw [unfolded, if_neg h]⟩

/-- The monitor sees the first dispatch: two different alarms cannot both go unnoticed. -/
theorem EveryDispatch.first {callee : Value} {f : Function} {args : List Value}
    {keywords : Keywords} (h : EveryDispatch rt (.call callee args keywords) ok)
    (hf : rt.baseFunction? callee = some f) : ok ⟨rt, callee, f, args, keywords⟩ := by
  apply Classical.byContradiction
  intro hn
  have alarmed (alarm : Activity Value) (room : Nat) :
      (monitoredWithin ok alarm room callee args keywords).run rt = alarm.run rt := by
    cases room with
    | zero | succ => exact (run_callWith hf _ _ _).trans ((run_monitored alarm _ _ _ _ _).2 hn)
  have h₁ : (pure .none : Activity Value).run rt = _ := (alarmed _ _).symm.trans (h _)
  have h₂ : boom.run rt = _ := (alarmed _ _).symm.trans (h _)
  cases h₁.trans h₂.symm

/-- What is `ok` as often as it can come about is `ok` in every dispatch. -/
def Throughout (rt : Runtime) (ok : Dispatch → Prop) : Prop :=
  ∀ d : Dispatch, rt.Changes d.runtime → d.runtime.baseFunction? d.callable = some d.function →
    d.runtime.Knows d.callable → d.runtime.KnowsAll d.args →
    d.runtime.KnowsAll d.keywords.values → ok d

theorem Throughout.monitored (h : Throughout rt ok) {sound : rt.Sound} (alarm : Activity Value)
    {d d' : Dispatcher} (hd : (rt.agreeing sound).Dispatches d d') :
    (rt.agreeing sound).Dispatches d (Activity.monitored ok alarm d') := by
  intro p holds callable f args keywords hf hc ha hk
  have joins := hd p holds callable f args keywords hf hc ha hk
  have fine : ok ⟨p.2, callable, f, args, keywords⟩ := by
    rw [holds.1]
    exact h ⟨p.1, callable, f, args, keywords⟩ holds.2 hf (hc trivial) (ha trivial) (hk trivial)
  rw [Relocation.stay_value, Relocation.stay_function, Relocation.stay_values,
    Relocation.stay_keywords] at joins ⊢
  exact joins.of_run_eq rfl ((run_monitored alarm d' callable f args keywords).1 fine)

theorem calls_monitoredWithin (h : Throughout rt ok) (sound : rt.Sound) (alarm : Activity Value)
    (room : Nat) :
    (rt.agreeing sound).Calls (callWithin room) (monitoredWithin ok alarm room) := by
  induction room with
  | zero => exact (h.monitored alarm (FreeBond.dispatches_dispatchWith .none)).calls
  | succ room ih => exact (h.monitored alarm (FreeBond.dispatches_dispatchWith (.some ih))).calls

theorem calls_monitoredCall (h : Throughout rt ok) (sound : rt.Sound) (alarm : Activity Value) :
    (rt.agreeing sound).Calls call (monitoredCall ok alarm) := by
  intro p holds callee args keywords hc ha hk
  apply Bond.Joins.get
  rw [holds.1]
  exact calls_monitoredWithin h sound alarm _ p holds callee args keywords hc ha hk

theorem Throughout.everyDispatch (sound : rt.Sound) (h : Throughout rt ok) {i : Invocation}
    (hi : rt.KnowsAll i.values) : EveryDispatch rt i ok := fun alarm =>
  (agree_of_joins_value (Bond.joins_invocation (calls_monitoredCall h sound alarm) (p := (rt, rt))
    ⟨rfl, .refl⟩ i fun _ => hi)).same

end Activity

namespace Runtime

variable {rt : Runtime}

/-- What it means to conform: bases lead from the receiver, or from its type, to the owner class. -/
def Conforms (rt : Runtime) (entry : Entry) (owner : TypeId) (receiver : Value) : Prop :=
  if entry.flags.has .onClass = true then
    ∃ id, receiver = .type id ∧ Relation.ReflTransGen rt.types.HasBase id owner
  else Relation.ReflTransGen rt.types.HasBase (rt.typeIdOf receiver) owner

theorem Sound.conforms_iff (sound : rt.Sound) (entry : Entry) (owner : TypeId) {receiver : Value}
    (hr : rt.Knows receiver) :
    rt.conforms entry owner receiver = true ↔ rt.Conforms entry owner receiver := by
  unfold Runtime.conforms Conforms
  split
  · cases receiver with
    | type id => simp [sound.lawful.isSubtype_iff hr]
    | none | bool | int | float | text | object => simp
  · exact sound.lawful.isSubtype_iff (sound.contains_typeIdOf receiver)

/-- A bound receiver conforms as long as its callable is there. -/
theorem Sound.bound_conforms (sound : rt.Sound) {v receiver : Value} {f : Function}
    {owner : TypeId} (hf : rt.heap.function? v = some f) (ho : f.owner = some owner)
    (hr : f.receiver = some receiver) : rt.Conforms f.entry owner receiver :=
  (sound.conforms_iff f.entry owner (sound.knows_receiver hf hr)).mp
    ((sound.fits hf).conforms ho hr)

end Runtime

/-- If a dispatch of a callable with an owner class gets to the entry point, there is a receiver,
bound or the first argument, and it conforms. -/
def Dispatch.Conforming (d : Dispatch) : Prop :=
  ∀ owner delivery, d.function.owner = some owner →
    d.runtime.deliver d.callable d.function d.args d.keywords = .ok delivery →
    ∃ receiver, d.function.receiver.or d.args.head? = some receiver ∧
      d.runtime.Conforms d.function.entry owner receiver

namespace Runtime

variable {rt : Runtime}

theorem Sound.conforming {d : Dispatch} (sound : d.runtime.Sound)
    (hf : d.runtime.heap.function? d.callable = some d.function)
    (ha : d.runtime.KnowsAll d.args) : d.Conforming := by
  intro owner delivery ho hd
  cases hr : d.function.receiver with
  | some receiver => exact ⟨receiver, rfl, sound.bound_conforms hf ho hr⟩
  | none =>
    obtain ⟨checked, _⟩ := deliver_ok hd
    unfold checkReceiver at checked
    rw [ho, hr] at checked
    cases hargs : d.args with
    | nil => simp [hargs] at checked
    | cons first rest =>
      rw [hargs] at checked
      have hk : d.runtime.Knows first := ha first (by simp [hargs])
      exact ⟨first, rfl, (sound.conforms_iff _ _ hk).mp (conforms_of_checkSelf checked)⟩

/-- Receivers are of the right type wherever a program may get: those bound to a callable with an
owner class, and those that any call hands to an entry point. -/
theorem Reachable.receivers_conform (h : rt.Reachable) :
    (∀ v f owner receiver, rt.heap.function? v = some f → f.owner = some owner →
      f.receiver = some receiver → rt.Conforms f.entry owner receiver) ∧
    ∀ i : Invocation, rt.KnowsAll i.values → Activity.EveryDispatch rt i Dispatch.Conforming := by
  have sound := h.sound
  refine ⟨fun v f owner receiver hf ho hr => sound.bound_conforms hf ho hr, ?_⟩
  intro i hi
  refine Activity.Throughout.everyDispatch sound ?_ hi
  intro d changes hf _ ha _
  exact (sound.changes changes).conforming (function?_of_baseFunction? hf) ha

theorem receivers_conform_enlisted :
    ∃ f receiver, Session.enlisted.runtime.heap.function? (.object 2) = some f ∧
      f.owner = some ⟨256⟩ ∧ f.receiver = some receiver ∧
      Session.enlisted.runtime.Conforms f.entry ⟨256⟩ receiver ∧
      Activity.EveryDispatch Session.enlisted.runtime (.call (.object 2) [] [])
        Dispatch.Conforming := by
  have reachable := Reachable.of_session Session.enlisted_reachable
  obtain ⟨ho, hr⟩ :
      (Session.enlisted.runtime.heap.function? (.object 2)).bind Function.owner = some ⟨256⟩ ∧
      ((Session.enlisted.runtime.heap.function? (.object 2)).bind Function.receiver).isSome := by
    decide +kernel
  obtain ⟨f, hf, ho⟩ := Option.bind_eq_some_iff.mp ho
  obtain ⟨receiver, hr⟩ := Option.isSome_iff_exists.mp hr
  rw [hf] at hr
  obtain ⟨bound_conform, calls_conform⟩ := Reachable.receivers_conform reachable
  have known := knows_of_function? hf
  refine ⟨f, receiver, hf, ho, hr, bound_conform _ f _ _ hf ho hr, calls_conform _ ?_⟩
  simpa [Invocation.values, Keywords.values] using known

end Runtime
end Callables

import Callables.Proofs.BondedCalls

namespace Callables

def Runtime.agreeing (start : Runtime) (sound : start.Sound) : FreeBond .stay where
  toBond := .lockstep start.Changes ⟨Runtime.Changes, fun _ => .refl, .trans⟩ True
    (fun _ _ changes => sound.changes changes)
    (fun _ _ _ changes => Runtime.Changes.grows changes)
    fun piece changes fair =>
      have made := piece.changes_after fair trivial
      ⟨changes.trans made, made⟩
  thread f h := ⟨⟨congrArg (fun rt : Runtime => { rt with thread := f rt.thread }) h.1,
    Relation.ReflTransGen.tail h.2 (.quiet rfl rfl rfl)⟩, .single (.quiet rfl rfl rfl)⟩

namespace Activity

variable {rt : Runtime} {α : Type}

theorem agree_of_joins {sound : rt.Sound} {g : α → α} {P : Runtime × Runtime → α → Prop}
    {Q : Runtime → α → Prop} {a b : Activity α} (stays : ∀ v, g v = v)
    (h : (rt.agreeing sound).Joins g P (rt, rt) a b) (known : ∀ q v, P q v → Q q.1 v) :
    Agree Q rt a b := by
  obtain ⟨result, ⟨⟨same, changes⟩, -⟩, value⟩ := h
  have result : (b.run rt).1 = (a.run rt).1 := by
    refine result.trans ?_
    cases (a.run rt).1 with
    | ok v => exact congrArg Except.ok (stays v)
    | error e => rfl
  exact ⟨Prod.ext result same, changes, fun v ended => known _ v (value v ended)⟩

theorem agree_of_joins_value {sound : rt.Sound} {a b : Activity Value}
    (h : (rt.agreeing sound).Joins Relocation.stay.value (rt.agreeing sound).Knows (rt, rt) a b) :
    Agree Runtime.Knows rt a b :=
  agree_of_joins Relocation.stay_value h fun _ _ known => known trivial

theorem safe_getAttribute (sound : rt.Sound) {v : Value} (hv : rt.Knows v) (name : String) :
    Safe Runtime.Knows rt (getAttribute v name) := by
  have holds : (rt.agreeing sound).toBond.Holds (rt, rt) := ⟨rfl, .refl⟩
  have joins := Bond.joins_getAttribute holds (fun _ => hv) name
  rw [Relocation.stay_value] at joins
  exact agree_of_joins_value joins

theorem safe_setAttribute (sound : rt.Sound) (v : Value) (name : String) {value : Value}
    (hv : rt.Knows value) : Safe Any rt (setAttribute v name value) := by
  have holds : (rt.agreeing sound).toBond.Holds (rt, rt) := ⟨rfl, .refl⟩
  have joins := Bond.joins_setAttribute holds v name (fun _ => hv)
  rw [Relocation.stay_value, Relocation.stay_value] at joins
  exact agree_of_joins (fun _ => rfl) joins fun _ _ _ => trivial

section Calls

variable {args : List Value} {keywords : Keywords}

/-- Ways of calling that go the same way from a sound runtime on agree there. -/
theorem agree_of_calls {sound : rt.Sound} {c c' : Callee} (hc : (rt.agreeing sound).Calls c c')
    {callee : Value} (hv : rt.Knows callee) (ha : rt.KnowsAll args)
    (hk : rt.KnowsAll keywords.values) :
    Agree Runtime.Knows rt (c callee args keywords) (c' callee args keywords) := by
  exact agree_of_joins_value (hc.joins (p := (rt, rt)) ⟨rfl, .refl⟩ (fun _ => hv) (fun _ => ha)
    fun _ => hk)

theorem callMethodWith_agree {sound : rt.Sound} {c c' : Callee}
    (hc : (rt.agreeing sound).Calls c c') {receiver : Value} (name : String)
    (hr : rt.Knows receiver) (ha : rt.KnowsAll args) (hk : rt.KnowsAll keywords.values) :
    Agree Runtime.Knows rt (callMethodWith c receiver name args keywords)
      (callMethodWith c' receiver name args keywords) := by
  exact agree_of_joins_value (hc.joins_method (p := (rt, rt)) ⟨rfl, .refl⟩ name (fun _ => hr)
    (fun _ => ha) fun _ => hk)

/-- Calls are of good conduct, however deep they are nested. -/
theorem safe_call (sound : rt.Sound) {callee : Value} (hc : rt.Knows callee)
    (ha : rt.KnowsAll args) (hk : rt.KnowsAll keywords.values) :
    Safe Runtime.Knows rt (call callee args keywords) :=
  agree_of_calls (rt.agreeing sound).calls_call hc ha hk

theorem safe_callMethod (sound : rt.Sound) {receiver : Value} (name : String)
    (hr : rt.Knows receiver) (ha : rt.KnowsAll args) (hk : rt.KnowsAll keywords.values) :
    Safe Runtime.Knows rt (callMethod receiver name args keywords) :=
  callMethodWith_agree (rt.agreeing sound).calls_call name hr ha hk

theorem safe_callDirectly (sound : rt.Sound) {callee : Value} (hc : rt.Knows callee)
    (ha : rt.KnowsAll args) (hk : rt.KnowsAll keywords.values) :
    Safe Runtime.Knows rt (callDirectly callee args keywords) :=
  agree_of_calls (rt.agreeing sound).calls_call.directly hc ha hk

end Calls

theorem run_callWith {callee : Value} {f : Function} (hf : rt.baseFunction? callee = some f)
    (d : Dispatcher) (args : List Value) (keywords : Keywords) :
    (callWith d args callee keywords).run rt = (d callee f args keywords).run rt := by
  rw [callWith.eq_def, run_get, hf]

/-- How functions are dispatched by a call does not depend on what is called. -/
theorem run_call (rt : Runtime) : ∃ level, ∀ {callee : Value} {f : Function},
    rt.baseFunction? callee = some f → ∀ args keywords,
      (call callee args keywords).run rt = (dispatchWith level callee f args keywords).run rt := by
  cases hr : rt.thread.room with
  | zero =>
    refine ⟨none, fun {callee f} hf args keywords => ?_⟩
    unfold call
    rw [run_get, hr]
    exact run_callWith hf _ args keywords
  | succ room =>
    refine ⟨some (callWithin room), fun {callee f} hf args keywords => ?_⟩
    unfold call
    rw [run_get, hr]
    exact run_callWith hf _ args keywords

end Activity
end Callables

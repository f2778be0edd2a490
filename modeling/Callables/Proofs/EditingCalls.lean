import Callables.Proofs.BondedCalls

namespace Callables

namespace Runtime

def makingAlike : Bond .stay :=
  .lockstep (fun _ => True) making False (fun mind => mind.elim) (fun mind => mind.elim)
    fun piece _ fair => ⟨trivial, piece.edits_after fair, piece.thread_after⟩

def editingAlike : FreeBond .stay where
  toBond := .lockstep (fun _ => True) editing False (fun mind => mind.elim)
    (fun mind => mind.elim) fun piece _ fair => ⟨trivial, piece.edits_after fair⟩
  thread := fun {p} f h =>
    ⟨⟨congrArg (fun rt : Runtime => { rt with thread := f rt.thread }) h.1, trivial⟩,
      ⟨.refl, .refl p.1, .refl _⟩⟩

end Runtime

namespace Activity

theorem makes_getAttribute (v : Value) (name : String) : Makes (getAttribute v name) :=
  fun rt =>
    have holds : Runtime.makingAlike.Holds (rt, rt) := ⟨rfl, trivial⟩
    (Bond.joins_getAttribute holds False.elim name).later.leads

theorem makes_setAttribute (v : Value) (name : String) (value : Value) :
    Makes (setAttribute v name value) :=
  fun rt =>
    have holds : Runtime.makingAlike.Holds (rt, rt) := ⟨rfl, trivial⟩
    (Bond.joins_setAttribute holds v name False.elim).later.leads

theorem edits_call (callee : Value) (args : List Value) (keywords : Keywords) :
    EditsHeap (call callee args keywords) :=
  fun rt => (Runtime.editingAlike.calls_call (rt, rt) ⟨rfl, trivial⟩ callee args keywords
    False.elim False.elim False.elim).later.leads

theorem edits_callMethod (receiver : Value) (name : String) (args : List Value)
    (keywords : Keywords) : EditsHeap (callMethod receiver name args keywords) :=
  fun rt => (Bond.joins_callMethodWith Runtime.editingAlike.calls_call (p := (rt, rt))
    ⟨rfl, trivial⟩ name False.elim False.elim False.elim).later.leads

theorem edits_callDirectly (callee : Value) (args : List Value) (keywords : Keywords) :
    EditsHeap (callDirectly callee args keywords) :=
  fun rt => (Runtime.editingAlike.calls_call.directly (rt, rt) ⟨rfl, trivial⟩ callee args keywords
    False.elim False.elim False.elim).later.leads

end Activity
end Callables

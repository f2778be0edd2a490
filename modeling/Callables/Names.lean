import Callables.Runtime

namespace Callables

namespace Heap

/-- The first value of a chain of wrappers that is no wrapper itself. A wrapper is younger than
what it wraps, so the chain goes down to ever smaller places. -/
def innermostAt (h : Heap) (r : Ref) : Value :=
  match (h.function? (.object r)).bind Function.wrapped? with
  | none => .object r
  | some (.object inner) => if inner < r then h.innermostAt inner else .object inner
  | some value => value
termination_by r

def innermost (h : Heap) : Value → Value
  | .object r => h.innermostAt r
  | value => value

end Heap

namespace Runtime

/-- How a receiver is named in front of a callable: a type by its own name, any other value by the
name of its type. -/
def ownerLabel (rt : Runtime) : Value → String
  | .type id => (rt.types.info id).name
  | v => rt.typeName v

/-- The receiver that makes a callable a method to the reader; a module does not. -/
def displayReceiver? (rt : Runtime) (f : Function) : Option Value :=
  f.receiver.filter fun receiver => rt.typeIdOf receiver != .module

def ownName (f : Function) : String :=
  match f.metadata? with
  | some metadata => metadata.name.content
  | none => f.entry.name

def ownQualname (rt : Runtime) (f : Function) : String :=
  match f.metadata? with
  | some metadata => metadata.qualname.content
  | none =>
    match rt.displayReceiver? f with
    | some receiver => s!"{rt.ownerLabel receiver}.{f.entry.name}"
    | none => f.entry.name

def name (rt : Runtime) (f : Function) : String :=
  match f.wrapped? with
  | none => ownName f
  | some wrapped =>
    match rt.heap.function? (rt.heap.innermost wrapped) with
    | some inner => ownName inner
    | none => f.entry.name

def qualname (rt : Runtime) (f : Function) : String :=
  match f.wrapped? with
  | none => rt.ownQualname f
  | some wrapped =>
    match rt.heap.function? (rt.heap.innermost wrapped) with
    | some inner => rt.ownQualname inner
    | none => f.entry.name

end Runtime
end Callables

import Callables.Runtime

namespace Callables

namespace Runtime

/-- Whether a value may be the receiver of an entry declared on `owner`: for an entry that binds to
classes a subtype, otherwise an instance. -/
def conforms (rt : Runtime) (entry : Entry) (owner : TypeId) (receiver : Value) : Bool :=
  if entry.flags.has .onClass then
    match receiver with
    | .type id => rt.types.isSubtype id owner
    | _ => false
  else rt.isInstance receiver owner

def checkSelf (rt : Runtime) (entry : Entry) (owner : TypeId) (receiver : Value) :
    Except CallError Unit :=
  if rt.conforms entry owner receiver then .ok ()
  else
    .error (.wrongSelfType entry.name (rt.types.info owner).name (rt.typeName receiver))

def genericWrapper (wrapped receiver : Value) (module : Option Value) : Function where
  entry := .boundMethod
  receiver := some receiver
  module := module
  owner := none
  watchers := []
  kind := .method wrapped

/-- A wrapper that stands for the function itself. -/
def directWrapper (wrapped : Value) (f : Function) (receiver : Value) : Function where
  entry := f.entry
  receiver := some receiver
  module := f.module
  owner := f.owner
  watchers := []
  kind := .method wrapped

/-- The wrapper of a callable and a receiver. A function with an owner class refuses receivers that
do not conform. -/
def wrapper (rt : Runtime) (callable receiver : Value) : Except CallError Function := do
  match rt.baseFunction? callable with
  | none => return genericWrapper callable receiver none
  | some f =>
    match f.owner with
    | some owner => rt.checkSelf f.entry owner receiver
    | none => pure ()
    if f.isBound then return genericWrapper callable receiver f.module
    else return directWrapper callable f receiver

def bindingReceiver? (rt : Runtime) (callable : Value) (accessor : Option Value)
    (accessingClass : Option TypeId) : Option Value :=
  match rt.baseFunction? callable with
  | none => none
  | some f =>
    if f.isBound then none
    else if f.entry.flags.has .static && f.module.isNone then none
    else if f.entry.flags.has .onClass then
      match accessingClass, accessor with
      | some type, _ => some (.type type)
      | none, some v => some (.type (rt.typeOf v).id)
      | none, none => none
    else accessor

def sameMethod (f g : Function) : Bool :=
  match f.wrapped?, g.wrapped?, f.receiver, g.receiver with
  | some a, some b, some r, some s => a.same b && r.same s
  | _, _, _, _ => false

end Runtime

namespace Activity

def bindMethod (callable receiver : Value) : Activity Value := do
  let f ← ofExcept ((← get).wrapper callable receiver)
  allocate (.function f)

/-- What access through `accessor` or `accessingClass` makes of a callable found on a class. -/
def bindOnAccess (callable : Value) (accessor : Option Value)
    (accessingClass : Option TypeId) : Activity Value := do
  match (← get).bindingReceiver? callable accessor accessingClass with
  | some receiver => bindMethod callable receiver
  | none => return callable

end Activity
end Callables

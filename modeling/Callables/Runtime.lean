import Callables.Config
import Callables.Heap
import Callables.Ledger
import Callables.Thread
import Callables.Types

namespace Callables

/-- A dispatch as the thread sees it. -/
structure Attempt where
  thread : Thread
  entry : Entry
  /-- Whether receiver, flags and arguments of the call are accepted. -/
  accepted : Bool

structure Runtime where
  config : Config
  types : Types
  heap : Heap
  /-- What has happened to references since the last step was settled. -/
  ledger : Ledger
  thread : Thread
  nextText : Nat
  nextEntry : Nat
  /-- Where copies of activities that record dispatches write them. No other activity reads it or
  writes to it. -/
  record : List Attempt

namespace Runtime

def start (config : Config) : Runtime where
  config := config
  types := .initial
  heap := .empty
  ledger := #[]
  thread := .start config.recursionLimit
  nextText := 0
  nextEntry := Entry.firstIdent
  record := []

def typeIdOf (rt : Runtime) : Value → TypeId
  | .none => .none
  | .bool _ => .bool
  | .int _ => .int
  | .float _ => .float
  | .text _ => .text
  | .type _ => .type
  | .object r => ((rt.heap.get? r).map Object.typeId).getD .object

def typeOf (rt : Runtime) (v : Value) : TypeInfo := rt.types.info (rt.typeIdOf v)

def typeName (rt : Runtime) (v : Value) : String := (rt.typeOf v).name

def isInstance (rt : Runtime) (v : Value) (type : TypeId) : Bool := (rt.typeOf v).isSubtype type

/-- The function that a value refers to, if its type promises the base function layout. -/
def baseFunction? (rt : Runtime) (v : Value) : Option Function :=
  if (rt.typeOf v).flags.has .baseFunction then rt.heap.function? v else none

def isBaseFunction (rt : Runtime) (v : Value) : Bool := (rt.baseFunction? v).isSome

def isBuiltinFunction (rt : Runtime) (v : Value) : Bool :=
  (rt.baseFunction? v).any Function.isBuiltin

def isNativeFunction (rt : Runtime) (v : Value) : Bool :=
  (rt.baseFunction? v).any Function.isNative

def isDefinedFunction (rt : Runtime) (v : Value) : Bool :=
  (rt.baseFunction? v).any fun f => f.metadata?.isSome

def isHostFunction (rt : Runtime) (v : Value) : Bool := (rt.baseFunction? v).any Function.isHost

def isMethod (rt : Runtime) (v : Value) : Bool := (rt.baseFunction? v).any Function.isMethod

end Runtime

abbrev Activity (α : Type) := ExceptT CallError (StateM Runtime) α

abbrev Callee := Value → List Value → Keywords → Activity Value

namespace Activity

variable {α : Type}

def ofExcept : Except CallError α → Activity α
  | .ok a => pure a
  | .error e => throw e

def note (move : Move) : Activity Unit :=
  modify fun rt => { rt with ledger := rt.ledger.push move }

def take (values : List Value) : Activity Unit := note (.take values)

def letGo (values : List Value) : Activity Unit := note (.letGo values none)

def allocate (o : Object) : Activity Value :=
  modifyGet fun rt =>
    (.object rt.heap.nextRef,
      { rt with heap := rt.heap.push o, ledger := rt.ledger.push (.create o) })

def tuple (items : List Value) : Activity Value := allocate (.tuple items)

def text (content : String) : Activity Text := do
  let rt ← get
  set { rt with nextText := rt.nextText + 1 }
  return ⟨rt.nextText, content⟩

def entryIdent : Activity Nat := do
  let rt ← get
  set { rt with nextEntry := rt.nextEntry + 1 }
  return rt.nextEntry

def store (r : Ref) (o : Object) : Activity Unit := do
  match (← get).heap.get? r with
  | some old =>
    modify fun rt => { rt with heap := rt.heap.set r o }
    note (.change old o)
  | none => pure ()

def modifyThread (f : Thread → Thread) : Activity Unit :=
  modify fun rt => { rt with thread := f rt.thread }

def emit (kind : EventKind) (name : String) : Activity Unit :=
  modifyThread (·.emit ⟨kind, name⟩)

def setInDict (dict : Ref) (name : String) (value : Value) : Activity Unit := do
  match (← get).heap.get? dict with
  | some (.dict entries) => store dict (.dict (entries.set name value))
  | _ => pure ()

def eraseInDict (dict : Ref) (name : String) : Activity (Option Value) := do
  match (← get).heap.get? dict with
  | some (.dict entries) =>
    let old := entries.get? name
    take old.toList
    store dict (.dict (entries.erase name))
    note (.letGo old.toList old)
    return old
  | _ => return none

/-- Runs a body and answers how it ended; this itself never fails. -/
def observe (body : Activity α) : Activity (Except CallError α) :=
  ExceptT.mk fun rt =>
    let (result, rt) := body.run rt
    (.ok result, rt)

def orLetGo (values : List Value) (body : Activity α) : Activity α := do
  match ← observe body with
  | .ok a => return a
  | .error e =>
    letGo values
    throw e

def releasing (values : List Value) (body : Activity Value) : Activity Value := do
  let value ← orLetGo values body
  note (.letGo values (some value))
  return value

def holding (values : List Value) (body : Activity Value) : Activity Value := do
  take values
  releasing values body

/-- Runs a body one level deeper. The level is left again however the body ends. -/
def nested (body : Activity α) : Activity α := do
  modifyThread Thread.enter
  let result ← observe body
  modifyThread Thread.leave
  ofExcept result

/-- How a body ended, as a tuple: `ok` and the value, or the kind and message of the error. -/
def outcome (body : Activity Value) : Activity Value := do
  match ← observe body with
  | .ok value => tuple [.text (← text "ok"), value]
  | .error e => tuple [.text (← text e.kind.name), .text (← text e.message)]

end Activity
end Callables

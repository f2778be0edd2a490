import Callables.Dispatch
import Callables.Release
import Callables.Table

namespace Callables

inductive Operand
  | none
  | bool (b : Bool)
  | int (i : Int64)
  | float (x : Float)
  /-- A new text, whatever its content. -/
  | text (content : String)
  | kept (name : String)
  | builtin (name : String)
  | tuple (items : List Operand)
  | dict (pairs : List (String × Operand))
deriving Inhabited

structure Session where
  runtime : Runtime
  kept : Dict Value
  entries : Dict Entry
  registries : Dict (Registry TypeId)
  /-- How many call levels the program itself holds open. -/
  openLevels : Nat
  marks : Array Int

inductive Stop
  | malformed
  | failed (cause : CallError)
deriving DecidableEq

abbrev Program (α : Type) := ExceptT Stop (StateM Session) α

namespace Session

def start (config : Config) (entries : Dict Entry) : Session where
  runtime := .start config
  kept := .empty
  entries := entries
  registries := .empty
  openLevels := 0
  marks := #[]

def roots (s : Session) : List Value :=
  s.kept.values ++ s.runtime.types.entries.flatMap fun e => e.2.attributes.values

def counts (s : Session) (places : Nat) : Counts := .ofHeap s.runtime.heap s.roots places

/-- Releases what the session no longer refers to, at the end of a step that began with `before`.
What is released follows from the references that there are now; the ledger of the step only decides
whose watchers leave their marks first. -/
def settle (s before : Session) : Session :=
  let heap := s.runtime.heap
  let swept := heap.sweep s.roots
  let replayed := Sweep.replay heap (before.counts heap.size) s.runtime.ledger
  let told := replayed.told.filter swept.told.contains ++
    swept.told.filter (!replayed.told.contains ·)
  { s with
    runtime := { s.runtime with heap := swept.heap, ledger := #[] }
    marks := s.marks ++ told.toList.flatMap heap.marksAt }

def note (s : Session) (move : Move) : Session :=
  { s with runtime := { s.runtime with ledger := s.runtime.ledger.push move } }

def keep (s : Session) (name : String) (value : Value) : Session :=
  let old := s.kept.get? name
  { (s.note (.take [value])).note (.letGo old.toList none) with kept := s.kept.set name value }

def forget (s : Session) (name : String) : Session :=
  let old := s.kept.get? name
  { s.note (.letGo old.toList none) with kept := s.kept.erase name }

end Session

namespace Program

variable {α : Type}

def malformed : Program α := throw .malformed

def need : Option α → Program α
  | some a => pure a
  | none => malformed

def act (activity : Activity α) : Program α :=
  ExceptT.mk fun s =>
    let (result, runtime) := activity.run s.runtime
    (result.mapError .failed, { s with runtime })

def runtime : Program Runtime := return (← get).runtime

mutual

def read : Operand → Program Value
  | .none => return .none
  | .bool b => return .bool b
  | .int i => return .int i
  | .float x => return .float x
  | .text content => return .text (← act (Activity.text content))
  | .kept name => do need ((← get).kept.get? name)
  | .builtin name => return .type (← need (Types.builtinNamed? name))
  | .tuple items => do
    let items ← readAll items
    act (Activity.tuple items)
  | .dict pairs => do
    let pairs ← readPairs pairs
    act (Activity.allocate (.dict (.ofList pairs)))

def readAll : List Operand → Program (List Value)
  | [] => return []
  | operand :: rest => do
    let value ← read operand
    let values ← readAll rest
    return value :: values

def readPairs : List (String × Operand) → Program (List (String × Value))
  | [] => return []
  | (name, operand) :: rest => do
    let value ← read operand
    let values ← readPairs rest
    return (name, value) :: values

end

def readOptional : Option Operand → Program (Option Value)
  | some operand => return some (← read operand)
  | none => return none

def readKeywords : List (String × Operand) → Program Keywords
  | [] => return []
  | (name, operand) :: rest => do
    let name ← act (Activity.text name)
    let value ← read operand
    let keywords ← readKeywords rest
    return (name, value) :: keywords

def readType (operand : Operand) : Program TypeId := do
  need (← read operand).asType?

def readOptionalType : Option Operand → Program (Option TypeId)
  | some operand => return some (← readType operand)
  | none => return none

def readObject (view : Object → Option α) (operand : Operand) : Program (Ref × α) := do
  match ← read operand with
  | .object r => return (r, ← need (((← runtime).heap.get? r).bind view))
  | _ => malformed

def readTuple (operand : Operand) : Program (Ref × List Value) :=
  readObject Object.tuple? operand

def readDict (operand : Operand) : Program (Ref × Dict Value) := readObject Object.dict? operand

def readCode (operand : Operand) : Program (Ref × Code) := readObject Object.code? operand

def readFunction (operand : Operand) : Program (Ref × Function) :=
  readObject Object.function? operand

def entry (name : String) : Program Entry := do need ((← get).entries.get? name)

def registry (name : String) : Program (Registry TypeId) := do
  need ((← get).registries.get? name)

def setRegistry (name : String) (registry : Registry TypeId) : Program Unit :=
  modify fun s => { s with registries := s.registries.set name registry }

/-- Carries out a program as one step and settles it. A malformed one leaves the session as it was;
of another one that succeeds, the value is kept under `label`, if there are both. -/
def perform (program : Program α) (label : Option String) (value? : α → Option Value)
    (s : Session) : Except Stop α × Session :=
  match program.run s with
  | (.error .malformed, _) => (.error .malformed, s)
  | (.error stop, after) => (.error stop, after.settle s)
  | (.ok a, after) =>
    match label, value? a with
    | some name, some v => (.ok a, (after.keep name v).settle s)
    | _, _ => (.ok a, after.settle s)

end Program
end Callables

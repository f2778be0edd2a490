import Callables.Attribute
import Callables.Creation

namespace Callables

namespace Table

def isSkipped (entry : Entry) : Bool := entry.flags.has .custom

/-- Refuses an entry that may not stand in a table. A module has no class to bind to. -/
def check (config : Config) (onModule : Bool) (entry : Entry) : Except CallError Unit := do
  if onModule && entry.flags.has .onClass then
    throw (.invalidEntry entry.name "CLASS is not valid for module-level functions")
  if config.checkFlags then
    discard entry.validate

/-- The first objection to an entry that is not skipped decides. -/
def validate (config : Config) (onModule : Bool) (table : List Entry) : Except CallError Unit :=
  (table.filter (!isSkipped ·)).forM (check config onModule)

end Table

namespace Activity

/-- A native function declared on a class. A receiver has to conform to the class. -/
def newNativeMethod (entry : Entry) (receiver module : Option Value) (owner : Option TypeId) :
    Activity Value := do
  match owner, receiver with
  | some owner, some receiver => ofExcept ((← get).checkSelf entry owner receiver)
  | _, _ => pure ()
  newNativeFunction entry receiver module owner

def newTable (entries : List Entry) : Activity (List Entry) :=
  entries.mapM fun entry => return { entry with ident := ← entryIdent, shared := false }

def addToType (type : TypeId) (added : Nat) (entry : Entry) : Activity Nat := do
  if Table.isSkipped entry then return added
  let attributes := ((← get).types.info type).attributes
  if attributes.contains entry.name && !entry.flags.has .coexist then return added
  let owner := if entry.flags.has .static then none else some type
  let callable ← newNativeMethod entry none none owner
  setTypeAttribute type entry.name callable
  return added + 1

/-- Registers a table on a type, which becomes the owner class of all but static entries. Answers
how many were registered. -/
def addTableToType (type : TypeId) (table : List Entry) : Activity Nat := do
  ofExcept (Table.validate (← get).config false table)
  table.foldlM (addToType type) 0

def addToModule (module : Value) (name : Text) (names : Ref) (added : Nat) (entry : Entry) :
    Activity Nat := do
  if Table.isSkipped entry then return added
  let present := ((← get).heap.entriesAt (some names)).contains entry.name
  if present && !entry.flags.has .coexist then return added
  let receiver := if entry.flags.has .static then none else some module
  let callable ← newNativeFunction entry receiver (some (.text name)) none
  setInDict names entry.name callable
  return added + 1

/-- Registers a table on a module, to which all but static entries are bound. Answers how many were
registered. -/
def addTableToModule (module : Value) (table : List Entry) : Activity Nat := do
  let rt ← get
  match rt.heap.object? module with
  | some (.module name names) =>
    ofExcept (Table.validate rt.config true table)
    table.foldlM (addToModule module name names) 0
  | _ => throw (.typeFault (.notModule (rt.typeName module)))

end Activity
end Callables

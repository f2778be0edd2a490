import Callables.Names

namespace Callables

namespace Runtime

/-- The qualified name of a new native function when it differs from its name: the owner class, or
else the label of a receiver that is no module, goes in front. -/
def nativeQualname? (rt : Runtime) (name : String) (receiver : Option Value)
    (owner : Option TypeId) : Option String :=
  match owner, receiver with
  | some owner, _ => some s!"{(rt.types.info owner).name}.{name}"
  | none, some receiver =>
    if rt.typeIdOf receiver = .module then none
    else some s!"{rt.ownerLabel receiver}.{name}"
  | none, none => none

end Runtime

namespace Activity

def newModule (name : String) : Activity Value := do
  let name ← text name
  let names := (← get).heap.nextRef
  discard <| allocate (.dict (Dict.empty.set "__name__" (.text name)))
  allocate (.module name names)

def newInstance (type : TypeId) : Activity Value := allocate (.ofClass type .empty)

def newClosure (name : String) (body : ClosureBody) : Activity Value :=
  allocate (.closure ⟨name, body⟩)

def newBuiltinFunction (entry : Entry) (receiver module : Option Value) : Activity Value :=
  allocate (.function {
    entry, receiver, module, owner := none, watchers := [], kind := .builtin })

def textOr (content : Option String) (other : Text) : Activity Text :=
  match content with
  | some content => text content
  | none => pure other

def optionalText (content : Option String) : Activity Value :=
  match content with
  | some content => do return .text (← text content)
  | none => pure .none

def newNativeFunction (entry : Entry) (receiver module : Option Value) (owner : Option TypeId) :
    Activity Value := do
  let name ← text entry.name
  let qualname ← textOr ((← get).nativeQualname? entry.name receiver owner) name
  let doc ← optionalText entry.doc
  let metadata : Metadata := {
    name, qualname, doc
    module := none, code := none, defaults := none, keywordDefaults := none
    annotations := none, attributes := none, globals := .none, closure := none }
  allocate (.function {
    entry, receiver, module, owner, watchers := [], kind := .native metadata })

/-- A host-language function. The globals are a dict, and the closure has a cell for each free
variable of the code. -/
def newHostFunction (code : Ref) (c : Code) (globals : Value) (qualname : Option String)
    (closure : Option Ref) : Activity Value := do
  let rt ← get
  match rt.heap.dict? globals with
  | none => throw (.typeFault (.globalsNotDict (rt.typeName globals)))
  | some names =>
    let cells := (rt.heap.itemsAt closure).length
    if cells ≠ c.freeVariables.length then
      throw (.typeFault (.closureLength c.name.content c.freeVariables.length cells))
    let qualname ← textOr qualname c.qualname
    let metadata : Metadata := {
      name := c.name
      qualname
      doc := (c.doc.map Value.text).getD .none
      module := none
      code := some code
      defaults := none, keywordDefaults := none, annotations := none, attributes := none
      globals, closure }
    allocate (.function {
      entry := .hostFunction
      receiver := none
      module := names.get? "__name__"
      owner := none
      watchers := []
      kind := .defined metadata })

end Activity
end Callables

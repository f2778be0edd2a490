import Callables.Method
import Callables.Names

namespace Callables

inductive SpecialAttribute
  | name
  | qualname
  | doc
  | module
  | owner
  | receiver
  | wrapped
  | attributes
  | code
  | defaults
  | keywordDefaults
  | annotations
  | globals
  | closure
deriving DecidableEq

namespace SpecialAttribute

def names : List (String × SpecialAttribute) :=
  [("__name__", .name), ("__qualname__", .qualname), ("__doc__", .doc), ("__module__", .module),
    ("__objclass__", .owner), ("__self__", .receiver), ("__func__", .wrapped),
    ("__dict__", .attributes), ("__code__", .code), ("__defaults__", .defaults),
    ("__kwdefaults__", .keywordDefaults), ("__annotations__", .annotations),
    ("__globals__", .globals), ("__closure__", .closure)]

def named? (name : String) : Option SpecialAttribute :=
  (names.find? (·.1 == name)).map Prod.snd

def isReadOnly : SpecialAttribute → Bool
  | .owner | .receiver | .wrapped | .globals | .closure => true
  | _ => false

end SpecialAttribute

namespace Metadata

def valueOf : Option Ref → Value
  | some r => .object r
  | none => .none

end Metadata

namespace Runtime

def noAttribute (rt : Runtime) (v : Value) (name : String) : CallError :=
  .noAttribute (rt.typeName v) name

def bindsOnAccess (rt : Runtime) (attr : Value) : Bool :=
  (rt.typeOf attr).flags.has .methodDescriptor

def ownAttributes? (rt : Runtime) (v : Value) : Option (Dict Value) :=
  match rt.heap.object? v with
  | some (.ofClass _ attributes) => some attributes
  | _ => none

/-- The value that accesses the attributes of a class, if there is one besides the class, and the
class. -/
def accessOf (rt : Runtime) : Value → Option Value × TypeId
  | .type id => (none, id)
  | v => (some v, (rt.typeOf v).id)

def moduleNames? (rt : Runtime) (v : Value) : Option Ref :=
  match rt.heap.object? v with
  | some (.module _ names) => some names
  | _ => none

end Runtime

namespace Activity

def setTypeAttribute (type : TypeId) (name : String) (value : Value) : Activity Unit := do
  let old := ((← get).types.info type).attributes.get? name
  modify fun rt => { rt with types := rt.types.modifyAttributes type (·.set name value) }
  take [value]
  letGo old.toList

def eraseTypeAttribute (type : TypeId) (name : String) : Activity (Option Value) := do
  let old := ((← get).types.info type).attributes.get? name
  modify fun rt => { rt with types := rt.types.modifyAttributes type (·.erase name) }
  note (.letGo old.toList old)
  return old

def modifyMetadata (r : Ref) (change : Metadata → Metadata) : Activity Unit := do
  match (← get).heap.get? r with
  | some (.function f) =>
    match f.metadata? with
    | some metadata =>
      store r (.function { f with kind := f.kind.withMetadata (change metadata) })
    | none => pure ()
  | _ => pure ()

/-- The dict that a field of the metadata holds, made at its first use. -/
def dictFor (r : Ref) (field : Option Ref) (set : Ref → Metadata → Metadata) : Activity Ref := do
  match field with
  | some dict => return dict
  | none =>
    let dict := (← get).heap.nextRef
    discard <| allocate (.dict .empty)
    modifyMetadata r (set dict)
    return dict

def attributeDict (r : Ref) (metadata : Metadata) : Activity Ref :=
  dictFor r metadata.attributes fun dict metadata => { metadata with attributes := some dict }

def annotationDict (r : Ref) (metadata : Metadata) : Activity Ref :=
  dictFor r metadata.annotations fun dict metadata => { metadata with annotations := some dict }

def getOwnAttribute (r : Ref) (metadata : Metadata) (name : String) : Activity Value := do
  let rt ← get
  match (rt.heap.entriesAt metadata.attributes).get? name with
  | some value => return value
  | none => throw (rt.noAttribute (.object r) name)

def getOwner (v : Value) (f : Function) (name : String) : Activity Value := do
  let rt ← get
  match f.owner with
  | some owner => return .type owner
  | none => throw (rt.noAttribute v name)

def getFunctionAttribute (r : Ref) (f : Function) (name : String) : Activity Value := do
  let rt ← get
  match SpecialAttribute.named? name, f.metadata? with
  | some .name, some metadata => return .text metadata.name
  | some .name, none => return .text (← text f.entry.name)
  | some .qualname, some metadata => return .text metadata.qualname
  | some .qualname, none => return .text (← text (rt.ownQualname f))
  | some .owner, _ => getOwner (.object r) f name
  | some .doc, none =>
    match f.entry.doc with
    | some doc => return .text (← text doc)
    | none => return .none
  | some .doc, some metadata => return metadata.doc
  | some .module, none => return f.module.getD .none
  | some .module, some metadata => return (metadata.module <|> f.module).getD .none
  | some .receiver, none => return f.receiver.getD .none
  | _, none => throw (rt.noAttribute (.object r) name)
  | some .attributes, some metadata => return .object (← attributeDict r metadata)
  | special, some metadata =>
    match special, f.isHost with
    | some .code, true => return Metadata.valueOf metadata.code
    | some .defaults, true => return Metadata.valueOf metadata.defaults
    | some .keywordDefaults, true => return Metadata.valueOf metadata.keywordDefaults
    | some .annotations, true => return .object (← annotationDict r metadata)
    | some .globals, true => return metadata.globals
    | some .closure, true => return Metadata.valueOf metadata.closure
    | some .receiver, false => return f.receiver.getD .none
    | _, _ => getOwnAttribute r metadata name

/-- Reads an attribute along the linearization of a class. A callable found there binds. -/
def getClassAttribute (v : Value) (name : String) : Activity Value := do
  let rt ← get
  let (accessor, type) := rt.accessOf v
  match rt.types.lookup type name with
  | none => throw (rt.noAttribute v name)
  | some attr =>
    if rt.bindsOnAccess attr then bindOnAccess attr accessor (some type) else return attr

def getObjectAttribute (v : Value) (name : String) : Activity Value := do
  let rt ← get
  match rt.moduleNames? v with
  | some names =>
    match (rt.heap.entriesAt (some names)).get? name with
    | some value => return value
    | none => throw (rt.noAttribute v name)
  | none =>
    match (rt.ownAttributes? v).bind (·.get? name) with
    | some value => return value
    | none => getClassAttribute v name

def getDirectAttribute (v : Value) (name : String) : Activity Value := do
  match v, (← get).baseFunction? v with
  | .object r, some f => getFunctionAttribute r f name
  | _, _ => getObjectAttribute v name

/-- Reads an attribute. A bound wrapper answers for itself about its receiver, what it wraps and
its owner class, and leaves all else to the value at the end of its chain of wrappers. -/
def getAttribute (v : Value) (name : String) : Activity Value := do
  let rt ← get
  match rt.baseFunction? v with
  | some f =>
    match f.wrapped? with
    | some wrapped =>
      match SpecialAttribute.named? name with
      | some .receiver => return f.receiver.getD .none
      | some .wrapped => return wrapped
      | some .owner => getOwner v f name
      | _ => getDirectAttribute (rt.heap.innermost v) name
    | none => getDirectAttribute v name
  | none => getDirectAttribute v name

def expectText (value : Value) (name : String) : Activity Text :=
  match value.asText? with
  | some t => pure t
  | none => throw (.typeFault (.attributeKind name "string object"))

def expectOptional (value : Value) (isWanted : Bool) (name wanted : String) :
    Activity (Option Ref) :=
  match value, isWanted with
  | .none, _ => pure none
  | .object r, true => pure (some r)
  | _, _ => throw (.typeFault (.attributeKind name wanted))

/-- Gives a host-language function other code. The cells of its closure stay, so the code has to
have as many free variables. -/
def setCode (r : Ref) (metadata : Metadata) (value : Value) : Activity Unit := do
  let rt ← get
  match value, rt.heap.code? value with
  | .object code, some c =>
    let cells := (rt.heap.itemsAt metadata.closure).length
    if c.freeVariables.length = cells then
      modifyMetadata r fun metadata => { metadata with code := some code }
    else
      throw (.raised "ValueError"
        (s!"{metadata.name.content}() requires a code object with {cells} free vars, " ++
          s!"not {c.freeVariables.length}"))
  | _, _ => throw (.typeFault (.attributeKind "__code__" "code object"))

def setHostAttribute (r : Ref) (metadata : Metadata) (special : SpecialAttribute) (name : String)
    (value : Value) : Activity Unit := do
  let rt ← get
  match special with
  | .code => setCode r metadata value
  | .defaults =>
    let defaults ← expectOptional value (rt.heap.tuple? value).isSome name "tuple object"
    modifyMetadata r fun metadata => { metadata with defaults }
  | .keywordDefaults =>
    let keywordDefaults ← expectOptional value (rt.heap.dict? value).isSome name "dict object"
    modifyMetadata r fun metadata => { metadata with keywordDefaults }
  | .annotations =>
    let annotations ← expectOptional value (rt.heap.dict? value).isSome name "dict object"
    modifyMetadata r fun metadata => { metadata with annotations }
  | _ => throw (.readOnlyAttribute name)

def setSpecialAttribute (r : Ref) (f : Function) (metadata : Metadata) (special : SpecialAttribute)
    (name : String) (value : Value) : Activity Unit := do
  let rt ← get
  match special with
  | .name =>
    let name ← expectText value name
    modifyMetadata r fun metadata => { metadata with name }
  | .qualname =>
    let qualname ← expectText value name
    modifyMetadata r fun metadata => { metadata with qualname }
  | .doc => modifyMetadata r fun metadata => { metadata with doc := value }
  | .module => modifyMetadata r fun metadata => { metadata with module := some value }
  | .attributes =>
    match value, rt.heap.dict? value with
    | .object dict, some _ =>
      modifyMetadata r fun metadata => { metadata with attributes := some dict }
    | _, _ => throw (.typeFault (.attributeKind name "dictionary"))
  | _ =>
    if f.isHost then setHostAttribute r metadata special name value
    else throw (.readOnlyAttribute name)

def setFunctionAttribute (r : Ref) (f : Function) (name : String) (value : Value) :
    Activity Unit := do
  let rt ← get
  let special := SpecialAttribute.named? name
  if special.any SpecialAttribute.isReadOnly then throw (.readOnlyAttribute name)
  match f.metadata?, special with
  | none, some .name | none, some .qualname | none, some .doc | none, some .module =>
    throw (.readOnlyAttribute name)
  | none, _ => throw (rt.noAttribute (.object r) name)
  | some metadata, some special => setSpecialAttribute r f metadata special name value
  | some metadata, none =>
    let dict ← attributeDict r metadata
    setInDict dict name value

def setAttribute (v : Value) (name : String) (value : Value) : Activity Unit := do
  let rt ← get
  match v, rt.baseFunction? v with
  | .object r, some f => setFunctionAttribute r f name value
  | .type id, _ =>
    if rt.types.hasFlag id .heapType then setTypeAttribute id name value
    else throw (.typeFault (.immutableType name (rt.types.info id).name))
  | .object r, none =>
    match rt.heap.get? r with
    | some (.module _ names) => setInDict names name value
    | some (.ofClass type attributes) => store r (.ofClass type (attributes.set name value))
    | _ => throw (rt.noAttribute v name)
  | _, _ => throw (rt.noAttribute v name)

end Activity
end Callables
